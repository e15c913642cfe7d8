import CrawlTrove.Web.Splitting

/-!
# Addresses

The `ipaddress` module on texts: IPv4 and IPv6 addresses are read as `ip_address` reads
them and written as `str` writes them, the longest run of zero groups compressed.
`parse_text` says that a written address is read back. A text with a scope id is refused
here.
-/

namespace CrawlTrove.Inet

open Web (split joinWith)

abbrev Text := List Char

inductive Address
  | v4 (n : Fin (2 ^ 32))
  | v6 (n : Fin (2 ^ 128))
deriving DecidableEq

/-- The first number of a list in base `base`, the last digit last. -/
def fold (base : ℕ) (digits : List ℕ) : ℕ := digits.foldl (fun n d => n * base + d) 0

/-! ## Reading -/

def isDigit (c : Char) : Bool := decide ('0' ≤ c) && decide (c ≤ '9')

/-- The value of a hexadecimal digit. -/
def hexValue? (c : Char) : Option ℕ :=
  if isDigit c then some (c.toNat - '0'.toNat)
  else if decide ('a' ≤ c) && decide (c ≤ 'f') then some (c.toNat - 'a'.toNat + 10)
  else if decide ('A' ≤ c) && decide (c ≤ 'F') then some (c.toNat - 'A'.toNat + 10)
  else none

/-- `_parse_octet`. -/
def parseOctet (s : Text) : Option ℕ :=
  if s = [] || !s.all isDigit || decide (3 < s.length) || (s ≠ ['0'] && s.head? = some '0') then none
  else (some (Nat.ofDigitChars 10 s 0)).filter (· ≤ 255)

/-- The octets of an IPv4 address. -/
def parseOctets (s : Text) : Option (List ℕ) :=
  let octets := split '.' s
  if octets.length = 4 then octets.mapM parseOctet else none

def parse4 (s : Text) : Option (Fin (2 ^ 32)) :=
  (parseOctets s).map fun octets => Fin.ofNat (2 ^ 32) (fold 256 octets)

/-- `_parse_hextet`. -/
def parseHextet (s : Text) : Option ℕ :=
  if s = [] || decide (4 < s.length) then none else (s.mapM hexValue?).map (fold 16)

/-- An IPv4 address at the end stands for two groups. -/
def splitGroups (s : Text) : Option (List Text) :=
  let parts := split ':' s
  if parts.length < 3 then none
  else
    let last := parts.getLastD []
    if last.contains '.' then
      (parse4 last).map fun n =>
        parts.dropLast ++ [Nat.toDigits 16 (n.val / 65536), Nat.toDigits 16 (n.val % 65536)]
    else some parts

/-- The groups in front of an omission; it may begin the address. -/
def groupsBefore (first : Text) (before : List Text) : Option (List Text) :=
  if first = [] then if before = [] then some [] else none else some (first :: before)

def groupsAfter (after : List Text) (last : Text) : Option (List Text) :=
  if last = [] then if after = [] then some [] else none else some (after ++ [last])

/-- The eight groups: an empty part between the first and the last stands for those that
are omitted, and there is at most one. -/
def readGroups (first : Text) (interior : List Text) (last : Text) : Option (List ℕ) :=
  match interior.span (· ≠ []) with
  | (_, []) =>
      if interior.length + 2 = 8 then (first :: interior ++ [last]).mapM parseHextet else none
  | (before, _ :: after) =>
      if [] ∈ after then none
      else do
        let high ← groupsBefore first before
        let low ← groupsAfter after last
        if 8 ≤ high.length + low.length then none
        else
          let high ← high.mapM parseHextet
          let low ← low.mapM parseHextet
          return high ++ List.replicate (8 - (high.length + low.length)) 0 ++ low

def parseGroups (s : Text) : Option (List ℕ) :=
  (splitGroups s).bind fun parts =>
    if 9 < parts.length then none
    else
      match parts with
      | [] => none
      | first :: rest => readGroups first rest.dropLast (rest.getLastD [])

def parse6 (s : Text) : Option (Fin (2 ^ 128)) :=
  (parseGroups s).map fun groups => Fin.ofNat (2 ^ 128) (fold 65536 groups)

/-- `ipaddress.ip_address`. -/
def parse (s : Text) : Option Address :=
  match parse4 s with
  | some n => some (.v4 n)
  | none => (parse6 s).map .v6

/-! ## Writing -/

def octets (n : Fin (2 ^ 32)) : List ℕ :=
  [n.val / 2 ^ 24, n.val / 2 ^ 16 % 256, n.val / 2 ^ 8 % 256, n.val % 256]

def hextets (n : Fin (2 ^ 128)) : List ℕ :=
  [n.val / 2 ^ 112, n.val / 2 ^ 96 % 65536, n.val / 2 ^ 80 % 65536, n.val / 2 ^ 64 % 65536,
    n.val / 2 ^ 48 % 65536, n.val / 2 ^ 32 % 65536, n.val / 2 ^ 16 % 65536, n.val % 65536]

/-- A run of zero groups: where it begins and how long it is. -/
structure ZeroRun where
  start : ℕ
  length : ℕ
deriving DecidableEq

/-- The loop of `_compress_hextets`: the best run so far and the one that is going on, as
long as no run has come the best one has no length. -/
def longestRun (index : ℕ) (best current : ZeroRun) : List ℕ → ZeroRun
  | [] => best
  | h :: rest =>
      if h = 0 then
        let current : ZeroRun :=
          ⟨if current.length = 0 then index else current.start, current.length + 1⟩
        longestRun (index + 1) (if best.length < current.length then current else best) current rest
      else longestRun (index + 1) best ⟨0, 0⟩ rest

/-- `_compress_hextets`. -/
def compressHextets (hextets : List ℕ) : List Text :=
  let run := longestRun 0 ⟨0, 0⟩ ⟨0, 0⟩ hextets
  let texts := hextets.map (Nat.toDigits 16)
  if 1 < run.length then
    (if run.start = 0 then [[]] else []) ++ texts.take run.start ++ [[]] ++
      texts.drop (run.start + run.length) ++
      (if run.start + run.length = hextets.length then [[]] else [])
  else texts

/-- `str`. -/
def Address.text : Address → Text
  | .v4 n => joinWith ['.'] ((octets n).map (Nat.toDigits 10))
  | .v6 n => joinWith [':'] (compressHextets (hextets n))

/-! ## Numerals -/

theorem fold_append (base : ℕ) (l : List ℕ) (d : ℕ) : fold base (l ++ [d]) = fold base l * base + d := by
  simp [fold]

theorem parseOctet_toDigits : ∀ k < 256, parseOctet (Nat.toDigits 10 k) = some k := by
  decide +kernel

theorem hexValue?_digitChar : ∀ k < 16, hexValue? (Nat.digitChar k) = some k := by decide +kernel

theorem mapM_hexValue? (n : ℕ) :
    ∃ digits, (Nat.toDigits 16 n).mapM hexValue? = some digits ∧ fold 16 digits = n := by
  induction n using Nat.base_induction 16 (by decide) with
  | single m hm =>
      refine ⟨[m], ?_, by simp [fold]⟩
      rw [Nat.toDigits_of_lt_base hm]
      simp [hexValue?_digitChar m hm]
  | digit m k hk hm ih =>
      obtain ⟨digits, hdigits, hfold⟩ := ih
      refine ⟨digits ++ [k], ?_, ?_⟩
      · rw [← Nat.toDigits_append_toDigits (by decide) hm hk, List.mapM_append, hdigits,
          Nat.toDigits_of_lt_base hk]
        simp [hexValue?_digitChar k hk]
      · rw [fold_append, hfold, Nat.mul_comm]

/-- A group is read back. -/
theorem parseHextet_toDigits {n : ℕ} (h : n < 65536) :
    parseHextet (Nat.toDigits 16 n) = some n := by
  obtain ⟨digits, hdigits, hfold⟩ := mapM_hexValue? n
  have hlength : (Nat.toDigits 16 n).length ≤ 4 :=
    (Nat.length_toDigits_le_iff (by decide) (by decide)).mpr h
  have hshort : ¬ (Nat.toDigits 16 n = [] || decide (4 < (Nat.toDigits 16 n).length)) = true := by
    simp [hlength]
  rw [parseHextet, if_neg hshort, hdigits, Option.map_some, hfold]

/-- The characters of a group. -/
def isGroupChar (c : Char) : Bool := isDigit c || (decide ('a' ≤ c) && decide (c ≤ 'f'))

theorem isGroupChar_digitChar : ∀ k < 16, isGroupChar (Nat.digitChar k) = true := by
  decide

theorem isDigit_digitChar : ∀ k < 10, isDigit (Nat.digitChar k) = true := by decide

theorem forall_mem_toDigits {base : ℕ} {P : Char → Prop} (hbase : 1 < base)
    (hP : ∀ k < base, P (Nat.digitChar k)) (n : ℕ) : ∀ c ∈ Nat.toDigits base n, P c := by
  induction n using Nat.base_induction base hbase with
  | single m hm =>
      rw [Nat.toDigits_of_lt_base hm]
      simpa using hP m hm
  | digit m k hk hm ih =>
      rw [← Nat.toDigits_append_toDigits hbase hm hk, Nat.toDigits_of_lt_base hk]
      intro c hc
      rcases List.mem_append.mp hc with hc | hc
      · exact ih c hc
      · obtain rfl := List.mem_singleton.mp hc
        exact hP k hk

/-! ## IPv4 -/

theorem fold_octets (n : Fin (2 ^ 32)) : fold 256 (octets n) = n.val := by
  have hn := n.isLt
  simp only [fold, octets, List.foldl_cons, List.foldl_nil]
  omega

theorem octets_lt (n : Fin (2 ^ 32)) : ∀ k ∈ octets n, k < 256 := by
  have hn := n.isLt
  intro k hk
  simp only [octets, List.mem_cons, List.not_mem_nil, or_false] at hk
  omega

theorem mapM_map_some {α β : Type} {f : α → β} {g : β → Option α} {l : List α}
    (h : ∀ a ∈ l, g (f a) = some a) : (l.map f).mapM g = some l := by
  induction l with
  | nil => rfl
  | cons a l ih =>
      rw [List.map_cons, List.mapM_cons, h a List.mem_cons_self,
        ih fun b hb => h b (List.mem_cons_of_mem a hb)]
      rfl

theorem not_mem_octet {c : Char} (hc : isDigit c = false) (n : Fin (2 ^ 32)) :
    ∀ part ∈ (octets n).map (Nat.toDigits 10), c ∉ part := by
  intro part hpart hmem
  obtain ⟨k, -, rfl⟩ := List.mem_map.mp hpart
  have hdigit := forall_mem_toDigits (P := fun c => isDigit c = true) (by decide)
    isDigit_digitChar k c hmem
  rw [hc] at hdigit
  cases hdigit

theorem parse4_text (n : Fin (2 ^ 32)) :
    parse4 (joinWith ['.'] ((octets n).map (Nat.toDigits 10))) = some n := by
  have hparts : parseOctets (joinWith ['.'] ((octets n).map (Nat.toDigits 10))) =
      some (octets n) := by
    unfold parseOctets
    rw [Web.split_joinWith (by simp [octets]) (not_mem_octet (by decide) n)]
    dsimp only
    rw [if_pos (by simp [octets])]
    exact mapM_map_some fun k hk => parseOctet_toDigits k (octets_lt n k hk)
  rw [parse4, hparts, Option.map_some, fold_octets]
  exact congrArg some (Fin.ofNat_val_eq_self n)

/-! ## IPv6 -/

theorem fold_hextets (n : Fin (2 ^ 128)) : fold 65536 (hextets n) = n.val := by
  have hn := n.isLt
  simp only [fold, hextets, List.foldl_cons, List.foldl_nil]
  omega

theorem hextets_lt (n : Fin (2 ^ 128)) : ∀ k ∈ hextets n, k < 65536 := by
  have hn := n.isLt
  intro k hk
  simp only [hextets, List.mem_cons, List.not_mem_nil, or_false] at hk
  omega

/-- The groups of the run are zero. -/
def ZeroRun.Valid (run : ZeroRun) (l : List ℕ) : Prop :=
  ∀ i, run.start ≤ i → i < run.start + run.length → l[i]? = some 0

theorem ZeroRun.Valid.append {run : ZeroRun} {l : List ℕ} (h : run.Valid l) (l' : List ℕ) :
    run.Valid (l ++ l') := by
  intro i hstart hend
  have hi := h i hstart hend
  rw [List.getElem?_append_left (List.getElem?_eq_some_iff.mp hi).1, hi]

/-- The loop keeps two valid runs, the second of which ends where it is. -/
theorem longestRun_valid {before rest : List ℕ} {best current : ZeroRun}
    (hbest : best.Valid before) (hcurrent : current.Valid before)
    (hend : current.length = 0 ∨ current.start + current.length = before.length) :
    (longestRun before.length best current rest).Valid (before ++ rest) := by
  induction rest generalizing before best current with
  | nil =>
      rw [List.append_nil]
      exact hbest
  | cons h rest ih =>
      have hlength : (before ++ [h]).length = before.length + 1 := by simp
      rw [show before ++ h :: rest = (before ++ [h]) ++ rest by simp]
      unfold longestRun
      by_cases hzero : h = 0
      · subst hzero
        rw [if_pos rfl, ← hlength]
        have hnext : ZeroRun.Valid
            ⟨if current.length = 0 then before.length else current.start, current.length + 1⟩
            (before ++ [0]) := by
          intro i hstart hi
          dsimp only at hstart hi
          by_cases hlast : i = before.length
          · rw [hlast, List.getElem?_concat_length]
          · have hrun : current.length ≠ 0 := by
              intro hnone
              rw [if_pos hnone] at hstart hi
              omega
            rw [if_neg hrun] at hstart hi
            refine hcurrent.append [0] i hstart ?_
            omega
        refine ih ?_ hnext (Or.inr ?_)
        · dsimp only
          split
          · exact hnext
          · exact hbest.append [0]
        · dsimp only
          split <;> omega
      · rw [if_neg hzero, ← hlength]
        exact ih (hbest.append [h]) (fun i _ hi => absurd hi (by simp)) (Or.inl rfl)

/-- The list around a run of zeros. -/
theorem ZeroRun.Valid.split {run : ZeroRun} {l : List ℕ} (h : run.Valid l)
    (hlength : 0 < run.length) :
    run.start + run.length ≤ l.length ∧
      l = l.take run.start ++ List.replicate run.length 0 ++ l.drop (run.start + run.length) := by
  have hbound : run.start + run.length ≤ l.length := by
    have hlast := h (run.start + run.length - 1) (by omega) (by omega)
    have hlt := (List.getElem?_eq_some_iff.mp hlast).1
    omega
  refine ⟨hbound, ?_⟩
  have hzeros : (l.drop run.start).take run.length = List.replicate run.length 0 := by
    refine List.eq_replicate_iff.mpr ⟨by simp; omega, fun k hk => ?_⟩
    obtain ⟨i, hi⟩ := List.mem_iff_getElem?.mp hk
    rw [List.getElem?_take, List.getElem?_drop] at hi
    split at hi
    · rename_i hlt
      have hzero := h (run.start + i) (by omega) (by omega)
      exact Option.some.inj (hi.symm.trans hzero)
    · cases hi
  calc l = l.take run.start ++ l.drop run.start := (List.take_append_drop _ l).symm
    _ = l.take run.start ++ ((l.drop run.start).take run.length ++
          (l.drop run.start).drop run.length) := by
        rw [List.take_append_drop run.length (l.drop run.start)]
    _ = _ := by rw [hzeros, List.drop_drop, ← List.append_assoc]

/-- Groups are texts of group characters. -/
def Group (s : Text) : Prop := ∀ c ∈ s, isGroupChar c = true

theorem group_toDigits (n : ℕ) : Group (Nat.toDigits 16 n) :=
  forall_mem_toDigits (by decide) isGroupChar_digitChar n

theorem Group.not_mem {s : Text} (h : Group s) {c : Char} (hc : isGroupChar c = false) : c ∉ s := by
  intro hmem
  rw [h c hmem] at hc
  cases hc

/-- The parts of an address, the ends apart. -/
theorem parseGroups_joinWith {first last : Text} {interior : List Text} (hne : interior ≠ [])
    (hlength : interior.length ≤ 7) (hfirst : Group first) (hlast : Group last)
    (hinterior : ∀ part ∈ interior, Group part) :
    parseGroups (joinWith [':'] (first :: (interior ++ [last]))) =
      readGroups first interior last := by
  have hcolon : ∀ part ∈ first :: (interior ++ [last]), ':' ∉ part := by
    intro part hpart
    rcases List.mem_cons.mp hpart with rfl | hpart
    · exact hfirst.not_mem (by decide)
    · rcases List.mem_append.mp hpart with hpart | hpart
      · exact (hinterior part hpart).not_mem (by decide)
      · obtain rfl := List.mem_singleton.mp hpart
        exact hlast.not_mem (by decide)
  have hpos : 0 < interior.length := List.length_pos_iff.mpr hne
  have hdot : '.' ∉ last := hlast.not_mem (by decide)
  have hlastD : (first :: (interior ++ [last])).getLastD [] = last := by
    rw [← List.cons_append, List.getLastD_concat]
  have hgroups : splitGroups (joinWith [':'] (first :: (interior ++ [last]))) =
      some (first :: (interior ++ [last])) := by
    unfold splitGroups
    rw [Web.split_joinWith (by simp) hcolon]
    dsimp only
    rw [if_neg (by simp; omega), hlastD, if_neg (by simpa using hdot)]
  unfold parseGroups
  rw [hgroups, Option.bind_some, if_neg (by simp; omega)]
  simp only [List.dropLast_concat, List.getLastD_concat]

theorem span_interior {before after : List Text} (hbefore : [] ∉ before) :
    (before ++ [] :: after).span (· ≠ []) = (before, [] :: after) := by
  rw [List.span_eq_takeWhile_dropWhile]
  have hall : ∀ part ∈ before, decide (part ≠ ([] : Text)) = true := by
    intro part hpart
    rw [decide_eq_true_eq]
    rintro rfl
    exact hbefore hpart
  rw [List.takeWhile_append_of_pos hall, List.dropWhile_append_of_pos hall]
  simp

theorem nil_not_mem_map (l : List ℕ) : ([] : Text) ∉ l.map (Nat.toDigits 16) := by
  intro hmem
  obtain ⟨k, -, hk⟩ := List.mem_map.mp hmem
  exact Nat.toDigits_ne_nil hk

/-- The groups around an omission are read, and zeros are put between them. -/
theorem readGroups_omitted {first last : Text} {before after : List Text} {high low : List ℕ}
    (hbefore : [] ∉ before) (hafter : [] ∉ after)
    (hhigh : groupsBefore first before = some (high.map (Nat.toDigits 16)))
    (hlow : groupsAfter after last = some (low.map (Nat.toDigits 16)))
    (hlength : high.length + low.length < 8) (hhigh' : ∀ k ∈ high, k < 65536)
    (hlow' : ∀ k ∈ low, k < 65536) :
    readGroups first (before ++ [] :: after) last =
      some (high ++ List.replicate (8 - (high.length + low.length)) 0 ++ low) := by
  unfold readGroups
  rw [span_interior hbefore]
  dsimp only
  rw [if_neg hafter, hhigh, hlow]
  simp only [Option.bind_eq_bind, Option.bind_some, List.length_map]
  rw [if_neg (by omega), mapM_map_some fun k hk => parseHextet_toDigits (hhigh' k hk),
    mapM_map_some fun k hk => parseHextet_toDigits (hlow' k hk)]
  rfl

theorem readGroups_full {first last : Text} {interior : List Text} {l : List ℕ}
    (hl : first :: interior ++ [last] = l.map (Nat.toDigits 16)) (hlength : l.length = 8)
    (hlt : ∀ k ∈ l, k < 65536) : readGroups first interior last = some l := by
  have hne : ([] : Text) ∉ interior := by
    intro hmem
    refine nil_not_mem_map l ?_
    rw [← hl]
    exact List.mem_append_left _ (List.mem_cons_of_mem first hmem)
  have hspan : interior.span (· ≠ []) = (interior, []) := by
    have hall : ∀ part ∈ interior, decide (part ≠ ([] : Text)) = true := by
      intro part hpart
      rw [decide_eq_true_eq]
      rintro rfl
      exact hne hpart
    rw [List.span_eq_takeWhile_dropWhile, List.takeWhile_eq_self_iff.mpr hall,
      List.dropWhile_eq_nil_iff.mpr hall]
  have hcount : interior.length + 2 = 8 := by
    have h := congrArg List.length hl
    simp only [List.length_append, List.length_cons, List.length_nil, List.length_map] at h
    omega
  unfold readGroups
  rw [hspan]
  dsimp only
  rw [if_pos hcount, hl]
  exact mapM_map_some fun k hk => parseHextet_toDigits (hlt k hk)

theorem group_of_mem_map {l : List ℕ} {part : Text} (h : part ∈ l.map (Nat.toDigits 16)) :
    Group part := by
  obtain ⟨k, -, rfl⟩ := List.mem_map.mp h
  exact group_toDigits k

theorem group_nil : Group [] := by
  intro c hc
  exact absurd hc List.not_mem_nil

theorem parseGroups_omitted {l : List ℕ} (hlength : l.length = 8) (hlt : ∀ k ∈ l, k < 65536)
    {run : ZeroRun} (hvalid : run.Valid l) (hrun : 1 < run.length) :
    parseGroups (joinWith [':']
      ((if run.start = 0 then [[]] else []) ++ (l.map (Nat.toDigits 16)).take run.start ++ [[]] ++
        (l.map (Nat.toDigits 16)).drop (run.start + run.length) ++
        (if run.start + run.length = l.length then [[]] else []))) = some l := by
  obtain ⟨hbound, hsplit⟩ := hvalid.split (by omega)
  set high := l.take run.start with hhigh
  set low := l.drop (run.start + run.length) with hlow
  have hhighlen : high.length = run.start := by simp [hhigh]; omega
  have hlowlen : low.length = 8 - (run.start + run.length) := by simp [hlow, hlength]
  have hhigh' : ∀ k ∈ high, k < 65536 := fun k hk => hlt k (List.mem_of_mem_take hk)
  have hlow' : ∀ k ∈ low, k < 65536 := fun k hk => hlt k (List.mem_of_mem_drop hk)
  have hzeros : 8 - (high.length + low.length) = run.length := by omega
  have hmap : (l.map (Nat.toDigits 16)).take run.start = high.map (Nat.toDigits 16) := by
    rw [hhigh, List.map_take]
  have hmap' : (l.map (Nat.toDigits 16)).drop (run.start + run.length) =
      low.map (Nat.toDigits 16) := by
    rw [hlow, List.map_drop]
  rw [hmap, hmap']
  -- the part in front of the omission, and the part behind it
  obtain ⟨first, before, hparts, hbefore, hgroups, hfirst, hbefore', hbeforelen⟩ :
      ∃ first before, (if run.start = 0 then [[]] else []) ++ high.map (Nat.toDigits 16) =
        first :: before ∧ [] ∉ before ∧
        groupsBefore first before = some (high.map (Nat.toDigits 16)) ∧ Group first ∧
        (∀ part ∈ before, Group part) ∧ before.length ≤ high.length := by
    cases hcase : high with
    | nil =>
        have hzero : run.start = 0 := by rw [← hhighlen, hcase]; rfl
        exact ⟨[], [], by simp [hzero], List.not_mem_nil, rfl, group_nil,
          fun _ hmem => absurd hmem List.not_mem_nil, le_rfl⟩
    | cons k rest =>
        have hpos : run.start ≠ 0 := by rw [← hhighlen, hcase]; simp
        refine ⟨Nat.toDigits 16 k, rest.map (Nat.toDigits 16), by simp [hpos],
          nil_not_mem_map rest, ?_, group_toDigits k, fun part hmem => group_of_mem_map hmem,
          by simp⟩
        rw [groupsBefore, if_neg Nat.toDigits_ne_nil]
        rfl
  obtain ⟨last, after, hparts', hafter, hgroups', hlast, hafter', hafterlen⟩ :
      ∃ last after, low.map (Nat.toDigits 16) ++
          (if run.start + run.length = l.length then [[]] else []) = after ++ [last] ∧
        [] ∉ after ∧ groupsAfter after last = some (low.map (Nat.toDigits 16)) ∧ Group last ∧
        (∀ part ∈ after, Group part) ∧ after.length ≤ low.length := by
    cases hcase : low using List.reverseRecOn with
    | nil =>
        have hend : run.start + run.length = l.length := by
          have hnone : low.length = 0 := by rw [hcase]; rfl
          omega
        exact ⟨[], [], by simp [hend], List.not_mem_nil, rfl, group_nil,
          fun _ hmem => absurd hmem List.not_mem_nil, le_rfl⟩
    | append_singleton rest k _ =>
        have hend : run.start + run.length ≠ l.length := by
          have hsome : low.length = rest.length + 1 := by rw [hcase]; simp
          omega
        refine ⟨Nat.toDigits 16 k, rest.map (Nat.toDigits 16), by simp [hend],
          nil_not_mem_map rest, ?_, group_toDigits k, fun part hmem => group_of_mem_map hmem,
          by simp⟩
        rw [groupsAfter, if_neg Nat.toDigits_ne_nil]
        simp
  have hshape : (if run.start = 0 then [[]] else []) ++ high.map (Nat.toDigits 16) ++ [[]] ++
      low.map (Nat.toDigits 16) ++ (if run.start + run.length = l.length then [[]] else []) =
        first :: ((before ++ [] :: after) ++ [last]) := by
    rw [hparts, List.append_assoc _ (low.map _), hparts']
    simp
  rw [hshape, parseGroups_joinWith (by simp) (by simp; omega) hfirst hlast ?_,
    readGroups_omitted hbefore hafter hgroups hgroups' (by omega) hhigh' hlow', hzeros, ← hsplit]
  intro part hpart
  rcases List.mem_append.mp hpart with hpart | hpart
  · exact hbefore' part hpart
  · rcases List.mem_cons.mp hpart with rfl | hpart
    · exact group_nil
    · exact hafter' part hpart

theorem parseGroups_compressHextets {l : List ℕ} (hlength : l.length = 8)
    (hlt : ∀ k ∈ l, k < 65536) : parseGroups (joinWith [':'] (compressHextets l)) = some l := by
  have hvalid : (longestRun ([] : List ℕ).length ⟨0, 0⟩ ⟨0, 0⟩ l).Valid ([] ++ l) :=
    longestRun_valid (fun i _ hi => absurd hi (by simp))
      (fun i _ hi => absurd hi (by simp)) (Or.inl rfl)
  unfold compressHextets
  dsimp only
  split
  · exact parseGroups_omitted hlength hlt hvalid ‹_›
  · obtain ⟨first, rest, hl⟩ : ∃ first rest, l.map (Nat.toDigits 16) = first :: rest := by
      cases l with
      | nil => simp at hlength
      | cons k l => exact ⟨_, _, rfl⟩
    have hrest : rest.length = 7 := by
      have h := congrArg List.length hl
      simp only [List.length_map, List.length_cons] at h
      omega
    obtain ⟨interior, last, rfl⟩ : ∃ interior last, rest = interior ++ [last] := by
      have hne : rest ≠ [] := by
        rintro rfl
        cases hrest
      exact ⟨rest.dropLast, rest.getLast hne, (List.dropLast_concat_getLast hne).symm⟩
    have hgroup : ∀ part ∈ first :: (interior ++ [last]), Group part := by
      rw [← hl]
      exact fun part hpart => group_of_mem_map hpart
    have hseven : interior.length = 6 := by simpa using hrest
    rw [hl, parseGroups_joinWith (by rintro rfl; cases hseven) (by omega)
      (hgroup first List.mem_cons_self) (hgroup last (by simp))
      fun part hpart => hgroup part (by simp [hpart])]
    exact readGroups_full hl.symm hlength hlt

/-- What an address is written with. -/
theorem mem_compressHextets {l : List ℕ} {part : Text} (h : part ∈ compressHextets l) :
    Group part := by
  unfold compressHextets at h
  dsimp only at h
  split at h
  · simp only [List.mem_append] at h
    rcases h with (((h | h) | h) | h) | h
    · split at h
      · obtain rfl := List.mem_singleton.mp h
        exact group_nil
      · exact absurd h List.not_mem_nil
    · exact group_of_mem_map (List.mem_of_mem_take h)
    · obtain rfl := List.mem_singleton.mp h
      exact group_nil
    · exact group_of_mem_map (List.mem_of_mem_drop h)
    · split at h
      · obtain rfl := List.mem_singleton.mp h
        exact group_nil
      · exact absurd h List.not_mem_nil
  · exact group_of_mem_map h

theorem mem_joinWith {separator : Text} {parts : List Text} {c : Char}
    (h : c ∈ joinWith separator parts) : c ∈ separator ∨ ∃ part ∈ parts, c ∈ part := by
  induction parts with
  | nil => exact absurd h List.not_mem_nil
  | cons part parts ih =>
      cases parts with
      | nil => exact Or.inr ⟨part, List.mem_cons_self, h⟩
      | cons next parts =>
          rcases List.mem_append.mp h with h | h
          · rcases List.mem_append.mp h with h | h
            · exact Or.inr ⟨part, List.mem_cons_self, h⟩
            · exact Or.inl h
          · rcases ih h with h | ⟨p, hp, hc⟩
            · exact Or.inl h
            · exact Or.inr ⟨p, List.mem_cons_of_mem part hp, hc⟩

/-- The characters of a written IPv6 address. -/
theorem isGroupChar_of_mem_text {n : Fin (2 ^ 128)} {c : Char} (h : c ∈ (Address.v6 n).text) :
    c = ':' ∨ isGroupChar c = true := by
  rcases mem_joinWith h with h | ⟨part, hpart, hc⟩
  · exact Or.inl (List.mem_singleton.mp h)
  · exact Or.inr (mem_compressHextets hpart c hc)

theorem parse4_text6 (n : Fin (2 ^ 128)) : parse4 (Address.v6 n).text = none := by
  have hdot : '.' ∉ (Address.v6 n).text := by
    intro hmem
    rcases isGroupChar_of_mem_text hmem with h | h
    · cases h
    · cases h
  rw [parse4, parseOctets, Web.split_eq_singleton hdot]
  rfl

/-- The characters of a written address: full stop, colon, digits and small letters. -/
theorem toNat_of_mem_text {a : Address} {c : Char} (h : c ∈ a.text) :
    46 ≤ c.toNat ∧ c.toNat ≤ 102 := by
  have hgroup : isGroupChar c = true → 46 ≤ c.toNat ∧ c.toNat ≤ 102 := by
    intro hc
    simp only [isGroupChar, isDigit, Bool.or_eq_true, Bool.and_eq_true, decide_eq_true_eq,
      Char.le_def, UInt32.le_iff_toNat_le] at hc
    show 46 ≤ c.val.toNat ∧ c.val.toNat ≤ 102
    rcases hc with ⟨h, h'⟩ | ⟨h, h'⟩
    · exact ⟨le_trans (by decide) h, le_trans h' (by decide)⟩
    · exact ⟨le_trans (by decide) h, le_trans h' (by decide)⟩
  cases a with
  | v4 n =>
      rcases mem_joinWith h with h | ⟨part, hpart, hc⟩
      · rw [List.mem_singleton.mp h]
        decide
      · obtain ⟨k, -, rfl⟩ := List.mem_map.mp hpart
        have hdigit := forall_mem_toDigits (P := fun c => isDigit c = true) (by decide)
          isDigit_digitChar k c hc
        exact hgroup (by rw [isGroupChar, hdigit, Bool.true_or])
  | v6 n =>
      rcases isGroupChar_of_mem_text h with rfl | h
      · decide
      · exact hgroup h

/-- A written address is read back. -/
theorem parse_text (a : Address) : parse a.text = some a := by
  cases a with
  | v4 n =>
      have h : parse4 (Address.v4 n).text = some n := parse4_text n
      simp only [parse, h]
  | v6 n =>
      have h : parse6 (Address.v6 n).text = some n := by
        have hgroups := parseGroups_compressHextets (l := hextets n) rfl (hextets_lt n)
        rw [parse6, Address.text, hgroups, Option.map_some, fold_hextets]
        exact congrArg some (Fin.ofNat_val_eq_self n)
      simp only [parse, parse4_text6, h, Option.map_some]

end CrawlTrove.Inet
