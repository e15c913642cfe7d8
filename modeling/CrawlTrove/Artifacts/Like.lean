import CrawlTrove.Store.WorkerApi

/-!
# Patterns built from names

`text LIKE name || '%'` reads the name as a pattern. It tests whether the text
begins with the name exactly when no character of the name has a meaning of its
own in a pattern: otherwise the name has an instance that does not begin with
it.
-/

namespace CrawlTrove.WorkerApi

/-- The wildcards and the escape character. -/
def isLikeMeta (c : Char) : Bool := c = '%' || c = '_' || c = '\\'

/-- No character of the name has a meaning of its own in a pattern. -/
def LikeLiteral (name : List Char) : Prop := ∀ c ∈ name, isLikeMeta c = false

instance (name : List Char) : Decidable (LikeLiteral name) :=
  inferInstanceAs (Decidable (∀ c ∈ name, isLikeMeta c = false))

theorem likeLiteral_append {p q : List Char} :
    LikeLiteral (p ++ q) ↔ LikeLiteral p ∧ LikeLiteral q := by
  simp only [LikeLiteral, List.mem_append]
  constructor
  · intro h
    exact ⟨fun c hc => h c (Or.inl hc), fun c hc => h c (Or.inr hc)⟩
  · rintro ⟨hp, hq⟩ c (hc | hc)
    · exact hp c hc
    · exact hq c hc

theorem sqlLike_percent_of {pattern text : List Char} (h : sqlLike pattern text = true) :
    sqlLike ('%' :: pattern) text = true := by
  cases text with
  | nil => simpa [sqlLike] using h
  | cons c text => simp [sqlLike, h]

/-- `%` alone matches everything. -/
theorem sqlLike_percent (text : List Char) : sqlLike ['%'] text = true := by
  induction text with
  | nil => simp [sqlLike]
  | cons c text ih => simp [sqlLike, ih]

/-- An ordinary character of the pattern matches itself and nothing else. -/
theorem sqlLike_ordinary {c : Char} (hc : isLikeMeta c = false) (pattern text : List Char) :
    sqlLike (c :: pattern) text = true ↔ ∃ rest, text = c :: rest ∧ sqlLike pattern rest = true := by
  simp only [isLikeMeta, Bool.or_eq_false_iff, decide_eq_false_iff_not] at hc
  obtain ⟨⟨hpercent, hunderscore⟩, hescape⟩ := hc
  cases text with
  | nil => simp [sqlLike]
  | cons d text =>
      rw [show sqlLike (c :: pattern) (d :: text) = (c = d && sqlLike pattern text) from by
        simp [sqlLike, hescape]]
      simp only [Bool.and_eq_true, decide_eq_true_eq, List.cons.injEq]
      constructor
      · rintro ⟨rfl, h⟩
        exact ⟨text, ⟨rfl, rfl⟩, h⟩
      · rintro ⟨rest, ⟨rfl, rfl⟩, h⟩
        exact ⟨rfl, h⟩

/-- Without such characters the test is the one on the beginning. -/
theorem sqlLike_literal {name : List Char} (h : LikeLiteral name) (text : List Char) :
    sqlLike (name ++ ['%']) text = true ↔ name <+: text := by
  induction name generalizing text with
  | nil => simp [sqlLike_percent]
  | cons c name ih =>
      have htail : LikeLiteral name := fun d hd => h d (List.mem_cons_of_mem _ hd)
      rw [List.cons_append, sqlLike_ordinary (h c List.mem_cons_self)]
      constructor
      · rintro ⟨rest, rfl, hrest⟩
        exact List.cons_prefix_cons.mpr ⟨rfl, (ih htail rest).mp hrest⟩
      · rintro ⟨rest, rfl⟩
        exact ⟨name ++ rest, rfl, (ih htail _).mpr ⟨rest, rfl⟩⟩

/-- A short text the pattern matches: nothing for `%`, a letter for `_`. A
backslash at the end escapes the `%` that follows the name. -/
def likeInstance : List Char → List Char
  | [] => []
  | '%' :: name => likeInstance name
  | '_' :: name => 'x' :: likeInstance name
  | '\\' :: c :: name => c :: likeInstance name
  | ['\\'] => ['%']
  | c :: name => c :: likeInstance name

example : likeInstance "a_%\\b".toList = "axb".toList := by decide +kernel

/-- The last case of `likeInstance` is that of the ordinary characters. -/
theorem ordinary_of_cases {c : Char} {name : List Char} (hpercent : c = '%' → False)
    (hunderscore : c = '_' → False)
    (hescape : ∀ d rest, c = '\\' → name = d :: rest → False)
    (hend : c = '\\' → name = [] → False) : isLikeMeta c = false := by
  have hslash : c ≠ '\\' := by
    rintro rfl
    cases name with
    | nil => exact hend rfl rfl
    | cons d rest => exact hescape d rest rfl rfl
  simp only [isLikeMeta, Bool.or_eq_false_iff, decide_eq_false_iff_not]
  exact ⟨⟨hpercent, hunderscore⟩, hslash⟩

theorem sqlLike_instance (name : List Char) :
    sqlLike (name ++ ['%']) (likeInstance name) = true := by
  induction name using likeInstance.induct with
  | case1 => simp [likeInstance, sqlLike]
  | case2 name ih =>
      rw [likeInstance]
      exact sqlLike_percent_of ih
  | case3 name ih => simpa [likeInstance, sqlLike] using ih
  | case4 c name ih => simpa [likeInstance, sqlLike] using ih
  | case5 => simp [likeInstance, sqlLike]
  | case6 c name hpercent hunderscore hescape hend ih =>
      have hc : isLikeMeta c = false := ordinary_of_cases hpercent hunderscore hescape hend
      rw [likeInstance]
      · exact (sqlLike_ordinary hc _ _).mpr ⟨likeInstance name, rfl, ih⟩
      all_goals assumption

theorem likeInstance_length_le (name : List Char) : (likeInstance name).length ≤ name.length := by
  induction name using likeInstance.induct with
  | case1 => simp [likeInstance]
  | case2 name ih => simp only [likeInstance, List.length_cons]; omega
  | case3 name ih => simp only [likeInstance, List.length_cons]; omega
  | case4 c name ih => simp only [likeInstance, List.length_cons]; omega
  | case5 => simp [likeInstance]
  | case6 c name hpercent hunderscore hescape hend ih =>
      rw [likeInstance]
      · simpa using ih
      all_goals assumption

/-- A name that is its own instance has no such character. -/
theorem likeLiteral_of_instance {name : List Char} (h : likeInstance name = name) :
    LikeLiteral name := by
  induction name using likeInstance.induct with
  | case1 => intro c hc; simp at hc
  | case2 name ih =>
      have hlen := likeInstance_length_le name
      have := congrArg List.length h
      simp only [likeInstance, List.length_cons] at this
      omega
  | case3 name ih => simp [likeInstance] at h
  | case4 c name ih =>
      have hlen := likeInstance_length_le name
      have := congrArg List.length h
      simp only [likeInstance, List.length_cons] at this
      omega
  | case5 => simp [likeInstance] at h
  | case6 c name hpercent hunderscore hescape hend ih =>
      rw [likeInstance] at h
      · intro d hd
        rcases List.mem_cons.mp hd with rfl | hd
        · exact ordinary_of_cases hpercent hunderscore hescape hend
        · exact ih (List.cons.inj h).2 d hd
      all_goals assumption

/-- The test is the one on the beginning of the text exactly for literal
names. -/
theorem sqlLike_prefix_iff (name : List Char) :
    (∀ text, sqlLike (name ++ ['%']) text = true → name <+: text) ↔ LikeLiteral name := by
  constructor
  · intro h
    have hbegins : name <+: likeInstance name := h _ (sqlLike_instance name)
    exact likeLiteral_of_instance
      (hbegins.eq_of_length_le (likeInstance_length_le name)).symm
  · intro h text htext
    exact (sqlLike_literal h text).mp htext

end CrawlTrove.WorkerApi
