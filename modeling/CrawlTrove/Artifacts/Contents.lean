import CrawlTrove.Artifacts.Steps

/-!
# What the files hold

The files of the store are the shelf of the digests: a put that returns stores
what it was given under its digest, an accepted delete erases the digest of its
reference. That is so as long as the digests of the accepted references are file
names; any other may reach the file of another artifact.
-/

namespace CrawlTrove.Artifacts

open Web (Text)
open FilesystemArtifactStore
open CrawlTrove.Shelves (Event Consistent)

namespace Call

/-- The put the call is a step of. -/
def uuid? : Call → Option (HexText 32)
  | .start uuid _ _ => some uuid
  | .chunk uuid _ => some uuid
  | .finish uuid => some uuid
  | .raise uuid => some uuid
  | _ => none

/-- The reference whose path the call opens or unlinks. -/
def opened? : Call → Option ArtifactRef
  | .get ref => some ref
  | .delete ref => some ref
  | .verify ref => some ref
  | _ => none

end Call

/-- The names of the puts that were called. -/
def uuids : History → List (HexText 32)
  | [] => []
  | (.start uuid _ _, _) :: history => uuid :: uuids history
  | _ :: history => uuids history

/-- The bytes a put was given since it was called. -/
def sent (uuid : HexText 32) : History → Bytes
  | [] => []
  | (.start u _ _, _) :: history => if u = uuid then [] else sent uuid history
  | (.chunk u bytes, _) :: history =>
      if u = uuid then sent uuid history ++ bytes else sent uuid history
  | _ :: history => sent uuid history

/-- What the puts that returned were given. -/
def stored : History → List Bytes
  | [] => []
  | (.finish uuid, .put (.ok _)) :: history => sent uuid history :: stored history
  | _ :: history => stored history

/-- No two contents that were stored have one digest. -/
def CollisionFree (store : FilesystemArtifactStore) (history : History) : Prop :=
  ∀ a ∈ stored history, ∀ b ∈ stored history, store.hexdigest a = store.hexdigest b → a = b

instance (store : FilesystemArtifactStore) (history : History) :
    Decidable (CollisionFree store history) :=
  inferInstanceAs (Decidable (∀ a ∈ stored history, ∀ b ∈ stored history, _))

/-- `_path_for_ref` does not raise. -/
def Accepts (store : FilesystemArtifactStore) (ref : ArtifactRef) : Prop :=
  ∃ path, store.pathForRef ref = .ok path

/-- What a digest has to be: the name of a file. -/
def IsName (sha256 : Text) : Prop := IsPart sha256 ∧ sha256 ≠ ['.', '.']

instance (sha256 : Text) : Decidable (IsName sha256) := inferInstanceAs (Decidable (_ ∧ _))

/-- The references that are accepted for reading or deleting have such digests. -/
def Named (store : FilesystemArtifactStore) (history : History) : Prop :=
  ∀ item ∈ history, ∀ ref, item.1.opened? = some ref → Accepts store ref → IsName ref.sha256

/-- The store is a map from digests to contents. -/
structure ContentAddressed (store : FilesystemArtifactStore) (history : History) (s : State) :
    Prop where
  /-- What a put returned can be read, unless its digest was deleted since. -/
  kept : ∀ after before uuid ref, history = after ++ (.finish uuid, .put (.ok ref)) :: before →
    (∀ r outcome, (.delete r, outcome) ∈ after → Accepts store r → r.sha256 ≠ ref.sha256) →
      store.get ref s = .ok (sent uuid before)
  /-- A step of a put that does not return changes nothing that can be read. -/
  unchanged : ∀ call outcome s', step store s call = some (outcome, s') → call.uuid? ≠ none →
    (∀ ref, outcome ≠ .put (.ok ref)) →
      ∀ ref data, store.get ref s' = .ok data ↔ store.get ref s = .ok data
  /-- A put that failed has left no file. -/
  cleaned : ∀ call e uuid, (call, .put (.error e)) ∈ history → call.uuid? = some uuid →
    s.files (store.tempPath uuid) = none
  /-- The path that is opened or unlinked is the one of the digest. -/
  confined : ∀ call outcome ref path, (call, outcome) ∈ history → call.opened? = some ref →
    store.pathForRef ref = .ok path → path.anchor = store.root.anchor ∧
      path.parts = store.root.parts ++ ["sha256".toList, ref.sha256.take 2, ref.sha256]

variable {store : FilesystemArtifactStore} {history : History} {s s' : State}
  {call : Call} {outcome : Outcome} {uuid : HexText 32}

/-! ## The log of the shelf -/

/-- What an entry of the history does to the shelf. -/
def eventOf (store : FilesystemArtifactStore) (history : History) :
    Call × Outcome → Event Text Bytes
  | (.finish uuid, .put (.ok _)) =>
      .stored (store.hexdigest (sent uuid history)).val (sent uuid history)
  | (.delete ref, _) =>
      match store.pathForRef ref with
      | .ok _ => .erased ref.sha256
      | .error _ => .other
  | _ => .other

def events (store : FilesystemArtifactStore) : History → List (Event Text Bytes)
  | [] => []
  | item :: history => eventOf store history item :: events store history

theorem stored_suffix (item : Call × Outcome) (history : History) :
    stored history <:+ stored (item :: history) := by
  rw [stored.eq_def (item :: history)]
  split
  · rename_i heq
    cases heq
  · rename_i heq
    cases heq
    exact List.suffix_cons ..
  · rename_i heq
    cases heq
    exact List.suffix_rfl

/-- What was stored is stored under its digest. -/
theorem stored_of_mem_events {digest : Text} {data : Bytes}
    (h : .stored digest data ∈ events store history) :
    digest = (store.hexdigest data).val ∧ data ∈ stored history := by
  induction history with
  | nil => simp [events] at h
  | cons item history ih =>
      rcases List.mem_cons.mp h with h | h
      · unfold eventOf at h
        split at h
        · obtain ⟨rfl, rfl⟩ := Event.stored.inj h
          exact ⟨rfl, List.mem_cons_self⟩
        · split at h <;> cases h
        · cases h
      · obtain ⟨hdigest, hstored⟩ := ih h
        exact ⟨hdigest, (stored_suffix item history).subset hstored⟩

theorem CollisionFree.cons {item : Call × Outcome} (h : CollisionFree store (item :: history)) :
    CollisionFree store history := by
  have hsubset := (stored_suffix item history).subset
  exact fun a ha b hb => h a (hsubset ha) b (hsubset hb)

/-- Collision-free contents make a consistent log. -/
theorem consistent_events (hfree : CollisionFree store history) :
    Consistent (events store history) := by
  intro digest a b ha hb
  obtain ⟨hdigest, ha⟩ := stored_of_mem_events ha
  obtain ⟨hdigest', hb⟩ := stored_of_mem_events hb
  exact hfree a ha b hb (Subtype.ext (hdigest.symm.trans hdigest'))

/-- The log after an entry is what was added to the log before it. -/
theorem events_append (after before : History) :
    ∃ log, events store (after ++ before) = log ++ events store before ∧
      ∀ digest, .erased digest ∈ log → ∃ ref outcome, (.delete ref, outcome) ∈ after ∧
        Accepts store ref ∧ ref.sha256 = digest := by
  induction after with
  | nil => exact ⟨[], rfl, by simp⟩
  | cons item after ih =>
      obtain ⟨log, hlog, herased⟩ := ih
      refine ⟨eventOf store (after ++ before) item :: log, by rw [List.cons_append, events, hlog,
        List.cons_append], ?_⟩
      intro digest hdigest
      rcases List.mem_cons.mp hdigest with h | h
      · unfold eventOf at h
        split at h
        · cases h
        · rename_i ref outcome
          split at h
          · rename_i path hpath
            exact ⟨ref, outcome, List.mem_cons_self, ⟨path, hpath⟩, (Event.erased.inj h).symm⟩
          · cases h
        · cases h
      · obtain ⟨ref, outcome, hmem, hrest⟩ := herased digest h
        exact ⟨ref, outcome, List.mem_cons_of_mem item hmem, hrest⟩

/-! ## One call -/

theorem sent_of_ne (hcall : call.uuid? ≠ some uuid) :
    sent uuid ((call, outcome) :: history) = sent uuid history := by
  cases call <;> simp_all [sent, Call.uuid?]

theorem uuids_suffix (item : Call × Outcome) (history : History) :
    uuids history <:+ uuids (item :: history) := by
  obtain ⟨call, outcome⟩ := item
  cases call with
  | start => exact List.suffix_cons ..
  | _ => exact List.suffix_rfl

/-- What the files and the waiting puts are, in terms of the history. -/
structure Sound (store : FilesystemArtifactStore) (history : History) (s : State) : Prop where
  holds : ∀ digest : HexText 64,
    s.files (store.destination digest.val) = Shelves.holds (events store history) digest.val
  noDirectory : NoDirectory store s
  temporary : ∀ uuid, s.files (store.tempPath uuid) = (s.put? uuid).map Put.written
  sent : ∀ uuid put, s.put? uuid = some put → put.written = sent uuid history
  begun : ∀ uuid put, s.put? uuid = some put → uuid ∈ uuids history
  ended : ∀ call result uuid, (call, .put result) ∈ history → call.uuid? = some uuid →
    uuid ∈ uuids history ∧ s.put? uuid = none

theorem Sound.empty (h : Empty store s) : Sound store [] s := by
  obtain ⟨hpending, hempty⟩ := h
  have hput : ∀ uuid, s.put? uuid = none := by
    intro uuid
    rw [State.put?, hpending, List.find?_nil]
  refine ⟨?_, ?_, ?_, ?_, ?_, ?_⟩
  · intro digest
    exact (hempty _ (within_destination (HexText.isPart (by decide) digest))).1
  · intro digest hmem
    have hpart := HexText.isPart (by decide) digest
    have hroot := (hempty _ (within_destination hpart)).2 hmem
    have hlength := congrArg (fun p => p.parts.length) hroot
    simp [parts_destination hpart] at hlength
  · intro uuid
    rw [hput, (hempty _ (within_tempPath uuid)).1]
    rfl
  · intro uuid put hsome
    simp [hput] at hsome
  · intro uuid put hsome
    simp [hput] at hsome
  · intro call result uuid hmem
    simp at hmem

/-- A step of a put that does not return. -/
theorem Sound.turn (h : Sound store history s) (hframe : Frame store uuid s s')
    (hcall : call.uuid? = some uuid)
    (hevent : eventOf store history (call, outcome) = .other)
    (hbegun : uuid ∈ uuids ((call, outcome) :: history))
    (hfile : s'.files (store.tempPath uuid) = (s'.put? uuid).map Put.written)
    (hput : ∀ put, s'.put? uuid = some put → outcome = .waiting ∧
      put.written = CrawlTrove.Artifacts.sent uuid ((call, outcome) :: history) ∧
      (uuid ∉ uuids history ∨ s.put? uuid ≠ none)) :
    Sound store ((call, outcome) :: history) s' := by
  refine ⟨?_, hframe.noDirectory h.noDirectory, ?_, ?_, ?_, ?_⟩
  · intro digest
    rw [hframe.destination, h.holds, events, hevent]
    rfl
  · intro u
    by_cases hu : u = uuid
    · rw [hu, hfile]
    · rw [hframe.tempPath hu, hframe.puts u hu, h.temporary]
  · intro u put hsome
    by_cases hu : u = uuid
    · rw [hu] at hsome ⊢
      exact (hput put hsome).2.1
    · rw [hframe.puts u hu] at hsome
      rw [h.sent u put hsome, sent_of_ne]
      rw [hcall]
      exact fun heq => hu (Option.some.inj heq).symm
  · intro u put hsome
    by_cases hu : u = uuid
    · exact hu ▸ hbegun
    · rw [hframe.puts u hu] at hsome
      exact (uuids_suffix (call, outcome) history).subset (h.begun u put hsome)
  · intro c result u hmem hc
    rcases List.mem_cons.mp hmem with heq | hmem
    · obtain ⟨rfl, rfl⟩ := Prod.mk.inj heq
      obtain rfl : u = uuid := Option.some.inj (hc.symm.trans hcall)
      refine ⟨hbegun, ?_⟩
      cases hsome : s'.put? u with
      | none => rfl
      | some put => exact absurd (hput put hsome).1 (by simp)
    · obtain ⟨hmem, hnone⟩ := h.ended c result u hmem hc
      refine ⟨(uuids_suffix (call, outcome) history).subset hmem, ?_⟩
      by_cases hu : u = uuid
      · rw [hu] at hmem hnone ⊢
        cases hsome : s'.put? uuid with
        | none => rfl
        | some put =>
            rcases (hput put hsome).2.2 with hnew | hwaits
            · exact absurd hmem hnew
            · exact absurd hnone hwaits
      · rw [hframe.puts u hu, hnone]

/-- A put that fails. -/
theorem Sound.fails {e : Error} (h : Sound store history s) (hframe : Frame store uuid s s')
    (hcall : call.uuid? = some uuid) (hover : Over store uuid s')
    (hbegun : uuid ∈ uuids ((call, .put (.error e)) :: history)) :
    Sound store ((call, .put (.error e)) :: history) s' := by
  have hevent : eventOf store history (call, .put (.error e)) = .other := by
    cases call <;> first | rfl | simp [Call.uuid?] at hcall
  refine h.turn hframe hcall hevent hbegun ?_ ?_
  · rw [hover.file, hover.put]
    rfl
  · intro put hsome
    simp [hover.put] at hsome

/-- A put that returns. -/
theorem Sound.returns {put : Put} (h : Sound store history s)
    (hput : s.put? uuid = some put) (hreturned : Returned store put s s')
    (hconsistent : Consistent
      (events store ((.finish uuid, .put (.ok (store.refOf put))) :: history))) :
    Sound store ((.finish uuid, .put (.ok (store.refOf put))) :: history) s' := by
  obtain rfl := State.uuid_of_put? hput
  have hwritten := h.sent put.uuid put hput
  have hsuffix := uuids_suffix (.finish put.uuid, .put (.ok (store.refOf put))) history
  refine ⟨?_, hreturned.noDirectory h.noDirectory, ?_, ?_, ?_, ?_⟩
  · intro digest
    have hpart := HexText.isPart (by decide) digest
    rw [events, eventOf, ← hwritten, Shelves.holds]
    split
    · rename_i hdigest
      obtain ⟨data, hdata, hmoved⟩ := hreturned.destination h.noDirectory
      have hcontent : data = put.written := by
        rw [h.temporary, hput] at hdata
        exact (Option.some.inj hdata).symm
      rw [hdigest, hmoved, Option.some_inj]
      cases hfile : s.files (store.destination (store.hexdigest put.written).val) with
      | none => exact hcontent
      | some bytes =>
          -- the file was there: its contents have the same digest
          rw [h.holds] at hfile
          apply hconsistent (store.hexdigest put.written).val
          · exact List.mem_cons_of_mem _ (Shelves.stored_of_holds hfile)
          · rw [events, eventOf, ← hwritten]
            exact List.mem_cons_self
    · rename_i hdigest
      rw [← h.holds]
      apply hreturned.files
      · exact (tempPath_ne_destination put.uuid hpart).symm
      · intro heq
        exact hdigest (destination_injective hpart (HexText.isPart (by decide) _) heq)
  · intro u
    by_cases hu : u = put.uuid
    · rw [hu, hreturned.gone.file, hreturned.gone.put]
      rfl
    · rw [hreturned.puts u hu, ← h.temporary]
      apply hreturned.files
      · exact fun heq => hu (tempPath_injective heq)
      · exact tempPath_ne_destination u (HexText.isPart (by decide) _)
  · intro u other hsome
    by_cases hu : u = put.uuid
    · simp [hu, hreturned.gone.put] at hsome
    · rw [hreturned.puts u hu] at hsome
      exact h.sent u other hsome
  · intro u other hsome
    by_cases hu : u = put.uuid
    · simp [hu, hreturned.gone.put] at hsome
    · rw [hreturned.puts u hu] at hsome
      exact h.begun u other hsome
  · intro c result u hmem hc
    rcases List.mem_cons.mp hmem with heq | hmem
    · obtain ⟨rfl, -⟩ := Prod.mk.inj heq
      obtain rfl : put.uuid = u := Option.some.inj hc
      exact ⟨h.begun put.uuid put hput, hreturned.gone.put⟩
    · obtain ⟨hmem, hnone⟩ := h.ended c result u hmem hc
      refine ⟨hmem, ?_⟩
      by_cases hu : u = put.uuid
      · rw [hu, hreturned.gone.put]
      · rw [hreturned.puts u hu, hnone]

/-- Any other call, if the files of the digests are as the log says. -/
theorem Sound.other (h : Sound store history s) (hcall : call.uuid? = none)
    (hpending : s'.pending = s.pending) (hdirectories : s'.directories = s.directories)
    (hholds : ∀ digest : HexText 64, s'.files (store.destination digest.val) =
      Shelves.holds (events store ((call, outcome) :: history)) digest.val)
    (htemporary : ∀ uuid, s'.files (store.tempPath uuid) = s.files (store.tempPath uuid)) :
    Sound store ((call, outcome) :: history) s' := by
  have hput : ∀ uuid, s'.put? uuid = s.put? uuid := by
    intro uuid
    rw [State.put?, hpending, State.put?]
  have hsuffix := uuids_suffix (call, outcome) history
  refine ⟨hholds, ?_, ?_, ?_, ?_, ?_⟩
  · intro digest
    rw [hdirectories]
    exact h.noDirectory digest
  · intro uuid
    rw [htemporary, hput, h.temporary]
  · intro uuid put hsome
    rw [hput] at hsome
    rw [h.sent uuid put hsome, sent_of_ne (by simp [hcall])]
  · intro uuid put hsome
    rw [hput] at hsome
    exact hsuffix.subset (h.begun uuid put hsome)
  · intro c result uuid hmem hc
    rcases List.mem_cons.mp hmem with heq | hmem
    · obtain ⟨rfl, -⟩ := Prod.mk.inj heq
      simp [hcall] at hc
    · obtain ⟨hmem, hnone⟩ := h.ended c result uuid hmem hc
      exact ⟨hsuffix.subset hmem, (hput uuid).trans hnone⟩

/-- One more entry, if the reference of an accepted delete names a file. -/
theorem Sound.next (h : Sound store history s) (hstep : step store s call = some (outcome, s'))
    (hfresh : (uuids ((call, outcome) :: history)).Nodup)
    (hconsistent : Consistent (events store ((call, outcome) :: history)))
    (hname : ∀ ref, call = .delete ref → Accepts store ref → IsPart ref.sha256) :
    Sound store ((call, outcome) :: history) s' := by
  cases call with
  | start uuid mediaType expectedMaxBytes =>
      obtain ⟨hframe, hcases⟩ := step_start hstep
      have hnew : uuid ∉ uuids history := (List.nodup_cons.mp hfresh).1
      have hover : Over store uuid s := by
        have hput : s.put? uuid = none := by
          cases hsome : s.put? uuid with
          | none => rfl
          | some put => exact absurd (h.begun uuid put hsome) hnew
        exact ⟨by rw [h.temporary, hput]; rfl, hput⟩
      rcases hcases with ⟨rfl, hfile, hput⟩ | ⟨e, rfl, hfails⟩
      · refine h.turn hframe rfl rfl List.mem_cons_self (by rw [hfile, hput]; rfl) ?_
        intro put hsome
        obtain rfl := Option.some.inj (hput.symm.trans hsome)
        exact ⟨rfl, by simp [Artifacts.sent], Or.inl hnew⟩
      · exact h.fails hframe rfl (hfails hover) List.mem_cons_self
  | chunk uuid bytes =>
      obtain ⟨put, hput, hframe, hcases⟩ := step_chunk hstep
      have hbegun := h.begun uuid put hput
      rcases hcases with ⟨rfl, hfile, hput'⟩ | ⟨e, rfl, hover⟩
      · refine h.turn hframe rfl rfl hbegun ?_ ?_
        · rw [hfile, hput', h.temporary, hput]
          rfl
        · intro other hsome
          obtain rfl := Option.some.inj (hput'.symm.trans hsome)
          refine ⟨rfl, ?_, Or.inr (by simp [hput])⟩
          rw [h.sent uuid put hput, Artifacts.sent, if_pos rfl]
      · exact h.fails hframe rfl hover hbegun
  | finish uuid =>
      obtain ⟨put, hput, hcases⟩ := step_finish hstep
      rcases hcases with ⟨rfl, hreturned⟩ | ⟨e, rfl, hframe, hover⟩
      · exact h.returns hput hreturned hconsistent
      · exact h.fails hframe rfl hover (h.begun uuid put hput)
  | raise uuid =>
      obtain ⟨put, hput, hframe, rfl, hover⟩ := step_raise hstep
      exact h.fails hframe rfl hover (h.begun uuid put hput)
  | delete ref =>
      obtain ⟨hpending, hdirectories, hcases⟩ := step_delete hstep
      rcases hcases with ⟨path, hpath, hfiles⟩ | ⟨⟨e, hpath⟩, rfl⟩
      · have hpart := hname ref rfl ⟨path, hpath⟩
        obtain ⟨-, -, -, rfl⟩ := pathForRef_eq_ok.mp hpath
        refine h.other rfl hpending hdirectories ?_ ?_
        · intro digest
          have hdigest := HexText.isPart (by decide) digest
          simp only [events, eventOf, hpath, Shelves.holds, hfiles]
          by_cases heq : digest.val = ref.sha256
          · rw [if_pos heq, heq, Function.update_self]
          · rw [if_neg heq, ← h.holds]
            apply Function.update_of_ne
            exact fun hdest => heq (destination_injective hdigest hpart hdest)
        · intro uuid
          rw [hfiles, Function.update_of_ne (tempPath_ne_destination uuid hpart)]
      · refine h.other rfl hpending hdirectories ?_ fun _ => rfl
        intro digest
        simp only [events, eventOf, hpath, Shelves.holds]
        exact h.holds digest
  | get ref =>
      obtain ⟨-, rfl⟩ := Prod.mk.inj (Option.some.inj hstep)
      exact h.other rfl rfl rfl h.holds fun _ => rfl
  | existence ref =>
      obtain ⟨-, rfl⟩ := Prod.mk.inj (Option.some.inj hstep)
      exact h.other rfl rfl rfl h.holds fun _ => rfl
  | verify ref =>
      obtain ⟨-, rfl⟩ := Prod.mk.inj (Option.some.inj hstep)
      exact h.other rfl rfl rfl h.holds fun _ => rfl

/-! ## Every history -/

/-- The accepted deletes name files. -/
def NamesFiles (store : FilesystemArtifactStore) (history : History) : Prop :=
  ∀ ref outcome, (.delete ref, outcome) ∈ history → Accepts store ref → IsPart ref.sha256

theorem Run.sound (hrun : Run store history s) (hfresh : (uuids history).Nodup)
    (hfree : CollisionFree store history) (hnames : NamesFiles store history) :
    Sound store history s := by
  induction hrun with
  | initial hempty => exact Sound.empty hempty
  | @next history s s' call outcome _ hstep ih =>
      have hbefore : Sound store history s := by
        apply ih
        · exact hfresh.sublist (uuids_suffix _ history).sublist
        · exact hfree.cons
        · exact fun ref o hmem => hnames ref o (List.mem_cons_of_mem _ hmem)
      refine hbefore.next hstep hfresh (consistent_events hfree) ?_
      rintro ref rfl haccepts
      exact hnames ref outcome List.mem_cons_self haccepts

theorem Run.split {after before : History}
    (hrun : Run store (after ++ (call, outcome) :: before) s) :
    ∃ s₀ s₁, Run store before s₀ ∧ step store s₀ call = some (outcome, s₁) := by
  induction after generalizing s with
  | nil =>
      cases hrun with
      | next hbefore hstep => exact ⟨_, _, hbefore, hstep⟩
  | cons item after ih =>
      cases hrun with
      | next hrun _ => exact ih hrun

theorem uuids_suffix_append (after before : History) :
    uuids before <:+ uuids (after ++ before) := by
  induction after with
  | nil => exact List.suffix_rfl
  | cons item after ih => exact ih.trans (uuids_suffix item (after ++ before))

theorem CollisionFree.tail {after before : History} (h : CollisionFree store (after ++ before)) :
    CollisionFree store before := by
  induction after with
  | nil => exact h
  | cons item after ih => exact ih h.cons

theorem NamesFiles.tail {after before : History} (h : NamesFiles store (after ++ before)) :
    NamesFiles store before :=
  fun ref o hmem => h ref o (List.mem_append_right after hmem)

/-- A put returns the reference of what it was given. -/
theorem Run.returned {after before : History} {ref : ArtifactRef}
    (hrun : Run store (after ++ (.finish uuid, .put (.ok ref)) :: before) s)
    (hfresh : (uuids (after ++ (.finish uuid, .put (.ok ref)) :: before)).Nodup)
    (hfree : CollisionFree store (after ++ (.finish uuid, .put (.ok ref)) :: before))
    (hnames : NamesFiles store (after ++ (.finish uuid, .put (.ok ref)) :: before)) :
    ∃ put : Put, put.written = sent uuid before ∧ ref = store.refOf put := by
  obtain ⟨s₀, s₁, hbefore, hstep⟩ := hrun.split
  rw [List.append_cons] at hfresh hfree hnames
  have hsound : Sound store before s₀ := by
    apply hbefore.sound
    · exact hfresh.sublist (uuids_suffix_append _ before).sublist
    · exact hfree.tail
    · exact hnames.tail
  obtain ⟨put, hput, hcases⟩ := step_finish hstep
  rcases hcases with ⟨hreturned, -⟩ | ⟨e, hfailed, -⟩
  · refine ⟨put, hsound.sent uuid put hput, ?_⟩
    simpa using hreturned
  · simp at hfailed

/-- What a put returned can be read. -/
theorem get_of_kept {after before : History} {ref : ArtifactRef}
    (hrun : Run store (after ++ (.finish uuid, .put (.ok ref)) :: before) s)
    (hfresh : (uuids (after ++ (.finish uuid, .put (.ok ref)) :: before)).Nodup)
    (hfree : CollisionFree store (after ++ (.finish uuid, .put (.ok ref)) :: before))
    (hnames : NamesFiles store (after ++ (.finish uuid, .put (.ok ref)) :: before))
    (hkept : ∀ r o, (.delete r, o) ∈ after → Accepts store r → r.sha256 ≠ ref.sha256) :
    store.get ref s = .ok (sent uuid before) := by
  have hsound := hrun.sound hfresh hfree hnames
  have hconsistent := consistent_events hfree
  obtain ⟨put, hwritten, rfl⟩ := hrun.returned hfresh hfree hnames
  obtain ⟨log, hlog, herased⟩ :=
    @events_append store after ((.finish uuid, .put (.ok (store.refOf put))) :: before)
  rw [events, eventOf, ← hwritten] at hlog
  rw [hlog] at hconsistent
  rw [← hwritten]
  apply get_eq_ok.mpr
  refine ⟨_, pathForRef_refOf put, ?_, rfl, rfl⟩
  rw [hsound.holds, hlog]
  apply Shelves.holds_of_kept hconsistent
  intro hmem
  obtain ⟨r, o, hdelete, haccepts, hdigest⟩ := herased _ hmem
  exact hkept r o hdelete haccepts hdigest

/-- A step of a put that does not return changes its own file at most. -/
theorem frame_of_step (hstep : step store s call = some (outcome, s'))
    (hcall : call.uuid? = some uuid) (hreturns : ∀ ref, outcome ≠ .put (.ok ref)) :
    Frame store uuid s s' := by
  cases call with
  | start u mediaType expectedMaxBytes =>
      obtain rfl := Option.some.inj hcall
      exact (step_start hstep).1
  | chunk u bytes =>
      obtain rfl := Option.some.inj hcall
      obtain ⟨put, -, hframe, -⟩ := step_chunk hstep
      exact hframe
  | finish u =>
      obtain rfl := Option.some.inj hcall
      obtain ⟨put, -, ⟨hreturned, -⟩ | ⟨e, -, hframe, -⟩⟩ := step_finish hstep
      · exact absurd hreturned (hreturns _)
      · exact hframe
  | raise u =>
      obtain rfl := Option.some.inj hcall
      obtain ⟨put, -, hframe, -⟩ := step_raise hstep
      exact hframe
  | get ref => cases hcall
  | delete ref => cases hcall
  | existence ref => cases hcall
  | verify ref => cases hcall

/-- The store is a map from digests to contents exactly when the references it accepts
for reading or deleting name files by their digests. -/
theorem contentAddressed_iff (hrun : Run store history s) (hfresh : (uuids history).Nodup)
    (hfree : CollisionFree store history) :
    ContentAddressed store history s ↔ Named store history := by
  constructor
  · rintro hmap ⟨call, outcome⟩ hmem ref hopened ⟨path, hpath⟩
    obtain ⟨-, hparts⟩ := hmap.confined call outcome ref path hmem hopened hpath
    obtain ⟨-, hresolve, -, -⟩ := pathForRef_eq_ok.mp hpath
    have hdigest : ref.sha256 ∈ path.parts := by simp [hparts]
    refine ⟨path.isPart _ hdigest, ?_⟩
    intro hup
    exact store.resolve_normal _ path hresolve (hup ▸ hdigest)
  · intro hname
    have hnames : NamesFiles store history :=
      fun ref o hmem haccepts => (hname _ hmem ref rfl haccepts).1
    have hsound := hrun.sound hfresh hfree hnames
    refine ⟨?_, ?_, ?_, ?_⟩
    · rintro after before uuid ref rfl hkept
      exact get_of_kept hrun hfresh hfree hnames hkept
    · intro call outcome s' hstep hcall hreturns
      obtain ⟨uuid, huuid⟩ := Option.ne_none_iff_exists'.mp hcall
      exact get_congr (frame_of_step hstep huuid hreturns).destination
    · intro call e uuid hmem hcall
      rw [hsound.temporary, (hsound.ended call _ uuid hmem hcall).2]
      rfl
    · intro call outcome ref path hmem hopened hpath
      have hpart := (hname _ hmem ref hopened ⟨path, hpath⟩).1
      obtain ⟨-, -, -, rfl⟩ := pathForRef_eq_ok.mp hpath
      exact destination_of_isPart hpart

/-! ## A store in `/srv` -/

def srv : PurePath := PurePath.parse "/srv".toList

theorem parts_srv : srv.anchor = .slash ∧ srv.parts = ["srv".toList] := by decide

/-- An absolute path that does not go up, where there are no links. -/
def resolveAbsolute (text : Text) : Option PurePath :=
  let path := PurePath.parse text
  if path.anchor = .slash ∧ path.parts.contains ['.', '.'] = false then some path else none

theorem resolveAbsolute_str {path : PurePath} (hanchor : path.anchor = .slash)
    (hup : ['.', '.'] ∉ path.parts) : resolveAbsolute path.str = some path := by
  rw [resolveAbsolute, PurePath.parse_str hanchor]
  exact if_pos ⟨hanchor, by simpa using hup⟩

def srvStore : FilesystemArtifactStore where
  root := srv
  hexdigest := sampleDigest
  resolve := resolveAbsolute
  anchor_root := parts_srv.1
  resolve_normal text path h := by
    unfold resolveAbsolute at h
    dsimp only at h
    split at h
    · rename_i hpath
      exact Option.some.inj h ▸ (by simpa using hpath.2)
    · cases h
  resolve_destination digest := by
    obtain ⟨hanchor, hparts⟩ :=
      destinationIn_of_isPart srv (HexText.isPart (by decide) digest)
    apply resolveAbsolute_str (hanchor.trans parts_srv.1)
    have hdots : ∀ text : Text, (∀ c ∈ text, isHex c = true) → text ≠ ['.', '.'] := by
      rintro text hhex rfl
      exact absurd (hhex '.' List.mem_cons_self) (by decide)
    have hdigest := hdots digest.val digest.property.2
    have htake := hdots (digest.val.take 2) fun c hc =>
      digest.property.2 c (List.mem_of_mem_take hc)
    rw [hparts, parts_srv.2]
    simp [hdigest.symm, htake.symm]

def vacant : State := ⟨fun _ => none, [], []⟩

theorem run_of_replay {calls : List Call}
    (h : (replay srvStore calls [] vacant).map Prod.fst = some history) :
    ∃ s, replay srvStore calls [] vacant = some (history, s) ∧ Run srvStore history s := by
  obtain ⟨⟨history', s⟩, hreplay, rfl⟩ := Option.map_eq_some_iff.mp h
  refine ⟨s, hreplay, Run.replay (Run.initial ⟨rfl, ?_⟩) hreplay⟩
  exact fun p _ => ⟨rfl, fun hmem => absurd hmem List.not_mem_nil⟩

def pageRef : ArtifactRef := srvStore.refOf ⟨firstUuid, plainText, 1, [97]⟩

/-- A page of one letter is put and read; meanwhile another put exceeds its limit. -/
def pageCalls : List Call :=
  [.start firstUuid plainText 1, .start secondUuid plainText 0,
    .chunk firstUuid [97], .chunk secondUuid [97], .finish firstUuid,
    .get pageRef]

def pageHistory : History :=
  [(.get pageRef, .bytes (.ok [97])),
    (.finish firstUuid, .put (.ok pageRef)),
    (.chunk secondUuid [97], .put (.error (.tooLarge "artifact exceeds 0 byte limit"))),
    (.chunk firstUuid [97], .waiting),
    (.start secondUuid plainText 0, .waiting),
    (.start firstUuid plainText 1, .waiting)]

theorem contentAddressed_page :
    ∃ s, Run srvStore pageHistory s ∧ ContentAddressed srvStore pageHistory s := by
  have hreplay : (replay srvStore pageCalls [] vacant).map Prod.fst = some pageHistory := by
    decide
  obtain ⟨s, -, hrun⟩ := run_of_replay hreplay
  refine ⟨s, hrun, (contentAddressed_iff hrun (by decide) (by decide)).mpr ?_⟩
  have hname : IsName pageRef.sha256 := by decide
  simpa [Named, pageHistory, Call.opened?] using fun _ => hname

/-- A reference whose digest is the path of the empty artifact. -/
def emptyRef : ArtifactRef := srvStore.refOf ⟨firstUuid, plainText, 0, []⟩

def forgedRef : ArtifactRef := { emptyRef with sha256 := emptyRef.uri.drop 7 }

def forgedCalls : List Call :=
  [.start firstUuid plainText 0, .finish firstUuid, .delete forgedRef]

def forgedHistory : History :=
  [(.delete forgedRef, .done (.ok ())), (.finish firstUuid, .put (.ok emptyRef)),
    (.start firstUuid plainText 0, .waiting)]

/-- Its delete removes the artifact, although the digests differ. -/
theorem forged_digest_deletes :
    ∃ s, Run srvStore forgedHistory s ∧ (uuids forgedHistory).Nodup ∧
      CollisionFree srvStore forgedHistory ∧ ¬ ContentAddressed srvStore forgedHistory s := by
  have hforged : (replay srvStore forgedCalls [] vacant).map Prod.fst = some forgedHistory := by
    decide
  obtain ⟨s, hreplay, hrun⟩ := run_of_replay hforged
  refine ⟨s, hrun, by decide, by decide, ?_⟩
  intro hmap
  have hgone : (replay srvStore forgedCalls [] vacant).map (fun r => srvStore.get emptyRef r.2) =
      some (.error .fileNotFound) := by decide
  rw [hreplay, Option.map_some, Option.some_inj] at hgone
  have hkept := hmap.kept [(.delete forgedRef, .done (.ok ()))] _ firstUuid emptyRef rfl ?_
  · rw [hgone] at hkept
    cases hkept
  · intro r outcome hmem _
    obtain ⟨hr, -⟩ := Prod.mk.inj (List.mem_singleton.mp hmem)
    obtain rfl := Call.delete.inj hr
    decide

end CrawlTrove.Artifacts
