import CrawlTrove.Relational.Transaction
import CrawlTrove.Store.Config

/-!
# Change tracking

`check_and_register` (`app/changes.py`) reads the history entry of a URL under a
lock, asks the database when there is none, and writes the new entry under the
lock again. The two halves are two events here, and the halves of any calls may
alternate. In the event loop a call that finds an entry is not interrupted
between them: only the question to the database awaits.
-/

namespace CrawlTrove.Signals

open Relational

/-- A history entry. -/
structure Entry where
  contentHash : String
  scrapedAt : Option Time
deriving DecidableEq

inductive ChangeStatus
  | new | same | changed
deriving DecidableEq, Repr

/-- The `changeTracking` report. -/
structure ChangeReport where
  previousScrapeAt : Option Time
  previousContentHash : Option String
  changeStatus : ChangeStatus
deriving DecidableEq

/-- The report on a page, given what was known of its URL. -/
def reportOn (previous : Option Entry) (contentHash : String) : ChangeReport :=
  match previous with
  | none => { previousScrapeAt := none, previousContentHash := none, changeStatus := .new }
  | some entry =>
      { previousScrapeAt := entry.scrapedAt
        previousContentHash := some entry.contentHash
        changeStatus := if entry.contentHash = contentHash then .same else .changed }

/-- A call between its two halves, with the entry its first half found. -/
structure Waiting where
  key : String
  contentHash : String
  found : Option Entry
deriving DecidableEq

/-- A call that has returned: the time it wrote and its result, `none` when the
history file could not be saved. -/
structure Finished where
  key : String
  contentHash : String
  writtenAt : Time
  result : Option ChangeReport
deriving DecidableEq

/-- The history, the calls in flight and those that have returned, in the order
in which they did. -/
structure Tracker where
  history : String → Option Entry := fun _ => none
  waiting : List Waiting := []
  finished : List Finished := []

inductive ChangeEvent
  /-- A call begins, up to the release of the lock. -/
  | check (url contentHash : String)
  /-- The call at this position goes on, with the answer of the database if it
  asked, and writes; `saved` says whether the file could be written. -/
  | register (position : ℕ) (dbPrevious : Option Entry) (now : Time) (saved : Bool)
deriving DecidableEq

variable (normalizeUrl : String → Option String)

/-- The key of a call that is tracked at all; `normalizeUrl` is `normalize_url`. -/
def trackedKey (url contentHash : String) : Option String :=
  if url = "" ∨ contentHash = "" then none else normalizeUrl url

/-- The call as it returns. -/
def Waiting.returned (w : Waiting) (dbPrevious : Option Entry) (now : Time) (saved : Bool) :
    Finished where
  key := w.key
  contentHash := w.contentHash
  writtenAt := now
  result := if saved then some (reportOn (w.found <|> dbPrevious) w.contentHash) else none

/-- The second half of a call. -/
def finish (w : Waiting) (dbPrevious : Option Entry) (now : Time) (saved : Bool) (s : Tracker) :
    Tracker :=
  { s with
    history := Function.update s.history w.key (some ⟨w.contentHash, some now⟩)
    finished := s.finished ++ [w.returned dbPrevious now saved] }

def step (e : ChangeEvent) (s : Tracker) : Tracker :=
  match e with
  | .check url contentHash =>
      match trackedKey normalizeUrl url contentHash with
      | none => s
      | some key => { s with waiting := s.waiting ++ [⟨key, contentHash, s.history key⟩] }
  | .register position dbPrevious now saved =>
      match s.waiting[position]? with
      | none => s
      | some w => finish w dbPrevious now saved { s with waiting := s.waiting.eraseIdx position }

def run (events : List ChangeEvent) : Tracker := runFrom (step normalizeUrl) {} events

/-- The database knows nothing of the URL and the file can be written. -/
def ChangeEvent.plain : ChangeEvent → Prop
  | .check _ _ => True
  | .register _ dbPrevious _ saved => dbPrevious = none ∧ saved = true

instance (e : ChangeEvent) : Decidable e.plain :=
  match e with
  | .check _ _ => inferInstanceAs (Decidable True)
  | .register _ _ _ _ => inferInstanceAs (Decidable (_ ∧ _))

/-! ## The sequential specification -/

/-- The results of these calls, one after the other. -/
def Sequential : Option Entry → List Finished → Prop
  | _, [] => True
  | previous, c :: calls =>
      c.result = some (reportOn previous c.contentHash) ∧
        Sequential (some ⟨c.contentHash, some c.writtenAt⟩) calls

/-- The calls of the URL that have returned can be put in an order in which each
returns what it would one after the other. -/
def Linearizable (key : String) (s : Tracker) : Prop :=
  ∃ order, order.Perm (s.finished.filter fun c => c.key = key) ∧ Sequential none order

/-- No call begins while another of its URL is between its halves. -/
def Apart (e : ChangeEvent) (s : Tracker) : Prop :=
  match e with
  | .check url contentHash =>
      ∀ key, trackedKey normalizeUrl url contentHash = some key → ∀ w ∈ s.waiting, w.key ≠ key
  | .register _ _ _ _ => True

/-- The event loop: a call that has found an entry goes on at once. -/
def Cooperative (e : ChangeEvent) (s : Tracker) : Prop :=
  ∀ w ∈ s.waiting, w.found.isSome = true →
    match e with
    | .check _ _ => False
    | .register position _ _ _ => s.waiting[position]? = some w

/-! ## Calls that keep apart -/

/-- What is known of the URL after these calls. -/
def after (previous : Option Entry) : List Finished → Option Entry
  | [] => previous
  | c :: calls => after (some ⟨c.contentHash, some c.writtenAt⟩) calls

theorem after_concat (previous : Option Entry) (calls : List Finished) (c : Finished) :
    after previous (calls ++ [c]) = some ⟨c.contentHash, some c.writtenAt⟩ := by
  induction calls generalizing previous with
  | nil => rfl
  | cons d calls ih => exact ih _

theorem sequential_concat (previous : Option Entry) (calls : List Finished) (c : Finished) :
    Sequential previous (calls ++ [c]) ↔
      Sequential previous calls ∧
        c.result = some (reportOn (after previous calls) c.contentHash) := by
  induction calls generalizing previous with
  | nil => simp [Sequential, after]
  | cons d calls ih => simp only [List.cons_append, Sequential, ih, after, and_assoc]

/-- The calls of this URL that have returned. -/
def Tracker.callsOf (s : Tracker) (key : String) : List Finished :=
  s.finished.filter fun c => c.key = key

/-- The calls of a URL have taken effect one after the other, and the one in
flight, if any, has found what the last of them wrote. -/
structure Orderly (s : Tracker) : Prop where
  distinct : (s.waiting.map Waiting.key).Nodup
  found : ∀ w ∈ s.waiting, w.found = s.history w.key
  sequential : ∀ key, Sequential none (s.callsOf key)
  history : ∀ key, after none (s.callsOf key) = s.history key

theorem callsOf_finish (w : Waiting) (dbPrevious : Option Entry) (now : Time) (saved : Bool)
    (s : Tracker) (key : String) :
    (finish w dbPrevious now saved s).callsOf key =
      s.callsOf key ++ if w.key = key then [w.returned dbPrevious now saved] else [] := by
  have hkey : (w.returned dbPrevious now saved).key = w.key := rfl
  simp only [Tracker.callsOf, finish, List.filter_append]
  by_cases h : w.key = key <;> simp [hkey, h]

/-- The other calls in flight belong to other URLs. -/
theorem Orderly.other {s : Tracker} (h : Orderly s) {position : ℕ}
    (hlt : position < s.waiting.length) :
    ∀ v ∈ s.waiting.eraseIdx position, v ∈ s.waiting ∧ v.key ≠ s.waiting[position].key := by
  intro v hv
  obtain ⟨i, hi, hne, rfl⟩ := List.mem_eraseIdx_iff_getElem.mp hv
  refine ⟨List.getElem_mem hi, ?_⟩
  intro heq
  have hindex : (s.waiting.map Waiting.key).get ⟨i, by simpa using hi⟩ =
      (s.waiting.map Waiting.key).get ⟨position, by simpa using hlt⟩ := by simpa using heq
  exact hne ((List.Nodup.getElem_inj_iff h.distinct).mp hindex)

theorem Orderly.finish {s : Tracker} (h : Orderly s) {position : ℕ} {w : Waiting}
    (hw : s.waiting[position]? = some w) (now : Time) :
    Orderly (finish w none now true { s with waiting := s.waiting.eraseIdx position }) := by
  obtain ⟨hlt, rfl⟩ := List.getElem?_eq_some_iff.mp hw
  have hfound := h.found _ (List.getElem_mem hlt)
  have hother := h.other hlt
  constructor
  · exact h.distinct.sublist ((List.eraseIdx_sublist _ _).map _)
  · intro v hv
    obtain ⟨hmem, hne⟩ := hother v hv
    show v.found = Function.update s.history _ _ v.key
    rw [Function.update_of_ne hne]
    exact h.found v hmem
  · intro key
    rw [callsOf_finish]
    by_cases hkey : s.waiting[position].key = key
    · subst hkey
      rw [if_pos rfl, sequential_concat]
      refine ⟨h.sequential _, ?_⟩
      show some (reportOn (s.waiting[position].found <|> none) _) =
        some (reportOn (after none (s.callsOf _)) _)
      rw [h.history, ← hfound]
      cases s.waiting[position].found <;> rfl
    · rw [if_neg hkey, List.append_nil]
      exact h.sequential key
  · intro key
    rw [callsOf_finish]
    by_cases hkey : s.waiting[position].key = key
    · subst hkey
      rw [if_pos rfl, after_concat]
      exact (Function.update_self (β := fun _ => Option Entry) ..).symm
    · rw [if_neg hkey, List.append_nil]
      show after none (s.callsOf key) = Function.update s.history _ _ key
      rw [Function.update_of_ne (Ne.symm hkey)]
      exact h.history key

theorem orderly_step {e : ChangeEvent} {s : Tracker} (hplain : e.plain)
    (hapart : Apart normalizeUrl e s) (h : Orderly s) : Orderly (step normalizeUrl e s) := by
  cases e with
  | check url contentHash =>
      cases hkey : trackedKey normalizeUrl url contentHash with
      | none => simpa only [step, hkey] using h
      | some key =>
          simp only [step, hkey]
          have hfresh := hapart key hkey
          refine ⟨?_, ?_, h.sequential, h.history⟩
          · rw [List.map_append, List.map_singleton, ← List.concat_eq_append, List.nodup_concat]
            refine ⟨?_, h.distinct⟩
            intro hmem
            obtain ⟨w, hw, heq⟩ := List.mem_map.mp hmem
            exact hfresh w hw heq
          · intro w hw
            rcases List.mem_append.mp hw with hw | hw
            · exact h.found w hw
            · obtain rfl := List.mem_singleton.mp hw
              rfl
  | register position dbPrevious now saved =>
      obtain ⟨rfl, rfl⟩ := hplain
      cases hw : s.waiting[position]? with
      | none => simpa only [step, hw] using h
      | some w =>
          simp only [step, hw]
          exact h.finish hw now

theorem orderly_empty : Orderly {} where
  distinct := List.nodup_nil
  found := by simp
  sequential := fun _ => trivial
  history := fun _ => rfl

/-- Calls that keep apart are linearized by the order in which they return. -/
theorem linearizable_of_apart {events : List ChangeEvent} (hplain : ∀ e ∈ events, e.plain)
    (hapart : StepsMeet (step normalizeUrl) (Apart normalizeUrl) {} events) (key : String) :
    Linearizable key (run normalizeUrl events) := by
  have horderly : ∀ (events : List ChangeEvent) (s : Tracker), (∀ e ∈ events, e.plain) →
      StepsMeet (step normalizeUrl) (Apart normalizeUrl) s events → Orderly s →
      Orderly (runFrom (step normalizeUrl) s events) := by
    intro events
    induction events with
    | nil => exact fun _ _ _ h => h
    | cons e events ih =>
        rintro s hplain ⟨hfirst, hrest⟩ h
        refine ih _ (fun e he => hplain e (List.mem_cons_of_mem _ he)) hrest ?_
        exact orderly_step normalizeUrl (hplain e List.mem_cons_self) hfirst h
  exact ⟨_, List.Perm.refl _, (horderly events {} hplain hapart orderly_empty).sequential key⟩

/-! ## Calls that meet -/

/-- A call of the URL that returned `new`. -/
def isNew (key : String) (c : Finished) : Bool :=
  c.key = key && c.result.any fun report => report.changeStatus = .new

/-- A call of the URL in flight that found nothing. -/
def isUnknowing (key : String) (w : Waiting) : Bool := w.key = key && w.found.isNone

/-- The calls of the URL that found nothing. -/
def Tracker.unknowing (s : Tracker) (key : String) : ℕ :=
  s.finished.countP (isNew key) + s.waiting.countP (isUnknowing key)

/-- What is known of a URL was first written by a call that found nothing. -/
structure Grounded (key : String) (s : Tracker) : Prop where
  history : s.history key ≠ none → 0 < s.finished.countP (isNew key)
  found : ∀ w ∈ s.waiting, w.key = key → w.found.isSome = true →
    0 < s.finished.countP (isNew key)

theorem reportOn_new (previous : Option Entry) (contentHash : String) :
    (reportOn previous contentHash).changeStatus = .new ↔ previous = none := by
  cases previous with
  | none => simp [reportOn]
  | some entry =>
      simp only [reportOn, reduceCtorEq, iff_false]
      split <;> simp

theorem isNew_returned (w : Waiting) (now : Time) (key : String) :
    isNew key (w.returned none now true) = isUnknowing key w := by
  have hfound : (w.found <|> none) = w.found := by cases w.found <;> rfl
  simp only [isNew, isUnknowing, Waiting.returned, if_true, Option.any_some, hfound]
  cases hw : w.found with
  | none => simp [reportOn]
  | some entry =>
      have hnot : (reportOn (some entry) w.contentHash).changeStatus ≠ .new := by
        rw [Ne, reportOn_new]
        simp
      simp [hnot]

theorem countP_eraseIdx {α : Type*} (p : α → Bool) {l : List α} {i : ℕ} {a : α}
    (h : l[i]? = some a) : l.countP p = (l.eraseIdx i).countP p + if p a then 1 else 0 := by
  obtain ⟨hlt, rfl⟩ := List.getElem?_eq_some_iff.mp h
  rw [← (List.getElem_cons_eraseIdx_perm hlt).countP_eq, List.countP_cons]

/-- No call that found nothing is ever lost. -/
theorem unknowing_step {e : ChangeEvent} {s : Tracker} (hplain : e.plain) (key : String) :
    s.unknowing key ≤ (step normalizeUrl e s).unknowing key := by
  cases e with
  | check url contentHash =>
      cases hkey : trackedKey normalizeUrl url contentHash with
      | none => simp only [step, hkey, le_refl]
      | some key' =>
          simp only [step, hkey, Tracker.unknowing, List.countP_append]
          omega
  | register position dbPrevious now saved =>
      obtain ⟨rfl, rfl⟩ := hplain
      cases hw : s.waiting[position]? with
      | none => simp only [step, hw, le_refl]
      | some w =>
          simp only [step, hw, Tracker.unknowing, finish, List.countP_append,
            List.countP_singleton, isNew_returned, countP_eraseIdx _ hw]
          omega

theorem grounded_step {e : ChangeEvent} {s : Tracker} {key : String} (hplain : e.plain)
    (h : Grounded key s) : Grounded key (step normalizeUrl e s) := by
  cases e with
  | check url contentHash =>
      cases hkey : trackedKey normalizeUrl url contentHash with
      | none => simpa only [step, hkey] using h
      | some key' =>
          simp only [step, hkey]
          refine ⟨h.history, ?_⟩
          intro w hw hwkey hfound
          rcases List.mem_append.mp hw with hw | hw
          · exact h.found w hw hwkey hfound
          · obtain rfl := List.mem_singleton.mp hw
            obtain rfl : key' = key := hwkey
            exact h.history (Option.isSome_iff_ne_none.mp hfound)
  | register position dbPrevious now saved =>
      obtain ⟨rfl, rfl⟩ := hplain
      cases hw : s.waiting[position]? with
      | none => simpa only [step, hw] using h
      | some w =>
          simp only [step, hw]
          have hmem : w ∈ s.waiting := List.mem_of_getElem? hw
          have hgrows : s.finished.countP (isNew key) ≤
              (s.finished ++ [w.returned none now true]).countP (isNew key) := by
            rw [List.countP_append]
            omega
          constructor
          · intro hknown
            by_cases hkey : w.key = key
            · cases hfound : w.found with
              | none =>
                  show 0 < (s.finished ++ [w.returned none now true]).countP (isNew key)
                  rw [List.countP_append, List.countP_singleton, isNew_returned]
                  simp [isUnknowing, hkey, hfound]
              | some entry =>
                  exact lt_of_lt_of_le (h.found w hmem hkey (by rw [hfound]; rfl)) hgrows
            · refine lt_of_lt_of_le (h.history ?_) hgrows
              simpa only [finish, Function.update_of_ne (Ne.symm hkey)] using hknown
          · intro v hv hkey hfound
            exact lt_of_lt_of_le (h.found v (List.mem_of_mem_eraseIdx hv) hkey hfound) hgrows

/-- Of calls one after the other only the first returns `new`, and that only when
nothing was known before. -/
theorem countP_isNew_le (key : String) {previous : Option Entry} {calls : List Finished}
    (h : Sequential previous calls) :
    calls.countP (isNew key) ≤ if previous = none then 1 else 0 := by
  induction calls generalizing previous with
  | nil => simp
  | cons c calls ih =>
      obtain ⟨hresult, hrest⟩ := h
      have hlater := ih hrest
      simp only [reduceCtorEq, if_false] at hlater
      rw [List.countP_cons]
      by_cases hnew : isNew key c = true
      · have hfirst : previous = none := by
          simp only [isNew, hresult, Option.any_some, Bool.and_eq_true, decide_eq_true_eq] at hnew
          exact (reportOn_new _ _).mp hnew.2
        rw [if_pos hnew, if_pos hfirst]
        omega
      · rw [if_neg hnew]
        omega

theorem countP_filter_key (key : String) (calls : List Finished) :
    (calls.filter fun c => c.key = key).countP (isNew key) = calls.countP (isNew key) := by
  rw [List.countP_filter]
  refine List.countP_congr ?_
  intro c _
  simp only [isNew, Bool.and_eq_true, decide_eq_true_eq]
  tauto

theorem isNew_le_of_linearizable {key : String} {s : Tracker} (h : Linearizable key s) :
    s.finished.countP (isNew key) ≤ 1 := by
  obtain ⟨order, hperm, hsequential⟩ := h
  have hle := countP_isNew_le key hsequential
  rw [hperm.countP_eq, countP_filter_key] at hle
  simpa using hle

/-- A call that begins in the event loop while another of its URL is in flight:
two calls have found nothing. -/
theorem two_unknowing {e : ChangeEvent} {s : Tracker} (hcoop : Cooperative e s)
    (hgrounded : ∀ key, Grounded key s) (hmeets : ¬ Apart normalizeUrl e s) :
    ∃ key, 2 ≤ (step normalizeUrl e s).unknowing key := by
  cases e with
  | register => exact absurd trivial hmeets
  | check url contentHash =>
      simp only [Apart, not_forall, not_not, exists_prop] at hmeets
      obtain ⟨key, hkey, w, hw, hwkey⟩ := hmeets
      refine ⟨key, ?_⟩
      have hblind : isUnknowing key w = true := by
        have hnot : ¬ w.found.isSome = true := hcoop w hw
        simp only [isUnknowing, hwkey, decide_true, Bool.true_and]
        simpa using hnot
      have hwaits : 0 < s.waiting.countP (isUnknowing key) :=
        List.countP_pos_iff.mpr ⟨w, hw, hblind⟩
      simp only [step, hkey, Tracker.unknowing, List.countP_append, List.countP_singleton]
      cases hhistory : s.history key with
      | none =>
          simp [isUnknowing]
          omega
      | some entry =>
          have hgrounds := (hgrounded key).history (by simp [hhistory])
          omega

theorem unknowing_run {key : String} (events : List ChangeEvent) {s : Tracker}
    (hplain : ∀ e ∈ events, e.plain) :
    s.unknowing key ≤ (runFrom (step normalizeUrl) s events).unknowing key := by
  induction events generalizing s with
  | nil => exact le_refl _
  | cons e events ih =>
      exact (unknowing_step normalizeUrl (hplain e List.mem_cons_self) key).trans
        (ih fun e he => hplain e (List.mem_cons_of_mem _ he))

/-- In the event loop: if the calls of every URL can be ordered, no call has begun
while another of its URL was in flight. -/
theorem apart_of_linearizable {events : List ChangeEvent} {s : Tracker}
    (hplain : ∀ e ∈ events, e.plain)
    (hcoop : StepsMeet (step normalizeUrl) Cooperative s events)
    (hgrounded : ∀ key, Grounded key s)
    (hdone : (runFrom (step normalizeUrl) s events).waiting = [])
    (h : ∀ key, Linearizable key (runFrom (step normalizeUrl) s events)) :
    StepsMeet (step normalizeUrl) (Apart normalizeUrl) s events := by
  induction events generalizing s with
  | nil => trivial
  | cons e events ih =>
      have hfirst := hplain e List.mem_cons_self
      have hrest : ∀ e ∈ events, e.plain := fun e he => hplain e (List.mem_cons_of_mem _ he)
      refine ⟨?_, ih hrest hcoop.2 (fun key => grounded_step normalizeUrl hfirst (hgrounded key))
        hdone h⟩
      by_contra hmeets
      obtain ⟨key, htwo⟩ := two_unknowing normalizeUrl hcoop.1 hgrounded hmeets
      have hgrows := @unknowing_run normalizeUrl key events (step normalizeUrl e s) hrest
      have hle := isNew_le_of_linearizable (h key)
      rw [runFrom_cons] at hle hdone
      simp only [Tracker.unknowing, hdone, List.countP_nil] at htwo hgrows
      omega

/-- Change detection is linearizable for every URL when no call begins while
another of its URL is between its halves, whatever runs the calls; and in the
event loop only then. -/
theorem linearizable_iff_apart (events : List ChangeEvent) (hplain : ∀ e ∈ events, e.plain)
    (hdone : (run normalizeUrl events).waiting = []) :
    (StepsMeet (step normalizeUrl) (Apart normalizeUrl) {} events →
        ∀ key, Linearizable key (run normalizeUrl events)) ∧
      (StepsMeet (step normalizeUrl) Cooperative {} events →
        ((∀ key, Linearizable key (run normalizeUrl events)) ↔
          StepsMeet (step normalizeUrl) (Apart normalizeUrl) {} events)) := by
  have hsufficient := linearizable_of_apart normalizeUrl hplain
  refine ⟨hsufficient, ?_⟩
  intro hcoop
  refine ⟨?_, hsufficient⟩
  have hgrounded : ∀ key, Grounded key {} := by
    intro key
    exact ⟨fun h => absurd rfl h, by simp⟩
  exact apart_of_linearizable normalizeUrl hplain hcoop hgrounded hdone

namespace Sample

/-- Two scrapes of one new URL begin, then both go on. -/
def together : List ChangeEvent :=
  [.check "https://example.com" "h1", .check "https://example.com" "h2",
    .register 0 none (seconds 1) true, .register 0 none (seconds 2) true]

/-- Both report the URL as new, so no order of the two explains them. -/
theorem both_new :
    ((run some together).finished.map fun c => (c.contentHash, c.result.map (·.changeStatus))) =
        [("h1", some .new), ("h2", some .new)] ∧
      (run some together).waiting = [] ∧ StepsMeet (step some) Cooperative {} together ∧
      ¬ Linearizable "https://example.com" (run some together) := by
  refine ⟨by decide, by decide, ?_, ?_⟩
  · simp [together, StepsMeet, Cooperative, step, trackedKey, finish]
  · intro h
    have hle := isNew_le_of_linearizable h
    have htwo : (run some together).finished.countP (isNew "https://example.com") = 2 := by
      decide
    omega

/-- One scrape after the other. -/
def oneByOne : List ChangeEvent :=
  [.check "https://example.com" "h1", .register 0 none (seconds 1) true,
    .check "https://example.com" "h2", .register 0 none (seconds 2) true]

theorem linearizable_oneByOne :
    (StepsMeet (step some) (Apart some) {} oneByOne →
        ∀ key, Linearizable key (run some oneByOne)) ∧
      (StepsMeet (step some) Cooperative {} oneByOne →
        ((∀ key, Linearizable key (run some oneByOne)) ↔
          StepsMeet (step some) (Apart some) {} oneByOne)) :=
  linearizable_iff_apart some oneByOne (by decide) (by decide)

end Sample

end CrawlTrove.Signals
