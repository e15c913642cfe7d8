import CrawlTrove.Artifacts.Objects

/-!
# References that are kept

Along every run the objects of the digests have the contents they were named after, and
the metadata of the last put that copied them. If each step is careful, a reference that
was returned and not deleted since keeps its media type, and so passes `verify`.
-/

namespace CrawlTrove.Artifacts.S3

open Web (Text)
open S3ArtifactStore

variable {store : S3ArtifactStore} {history : History} {s s' : State} {call : Call}
  {outcome : Outcome} {uuid : HexText 32}

/-! ## One entry of the history -/

theorem sent_of_ne (hcall : call.uuid? ≠ some uuid) :
    sent uuid ((call, outcome) :: history) = sent uuid history := by
  cases call <;> simp_all [sent, Call.uuid?]

theorem uuids_suffix (item : Call × Outcome) (history : History) :
    uuids history <:+ uuids (item :: history) := by
  obtain ⟨call, outcome⟩ := item
  cases call with
  | start => exact List.suffix_cons ..
  | _ => exact List.suffix_rfl

theorem contents_of_ne (hcopied : ∀ added, outcome ≠ .copied added) :
    contents ((call, outcome) :: history) = contents history := by
  cases outcome with
  | copied added => exact absurd rfl (hcopied added)
  | _ => cases call <;> rfl

theorem contents_suffix (item : Call × Outcome) (history : History) :
    contents history <:+ contents (item :: history) := by
  obtain ⟨call, outcome⟩ := item
  cases outcome with
  | copied added =>
      cases call with
      | copy => exact List.suffix_cons ..
      | _ => exact List.suffix_rfl
  | _ =>
      rw [contents_of_ne (by simp)]

theorem CollisionFree.cons {item : Call × Outcome} (h : CollisionFree store (item :: history)) :
    CollisionFree store history := by
  have hsubset := (contents_suffix item history).subset
  exact fun a ha b hb => h a (hsubset ha) b (hsubset hb)

theorem kept_of_ne (hcall : call.uuid? ≠ none) (hreturns : ∀ ref, outcome ≠ .put (.ok ref)) :
    kept store ((call, outcome) :: history) = kept store history := by
  cases call with
  | settle u fault =>
      cases outcome with
      | put result =>
          cases result with
          | ok ref => exact absurd rfl (hreturns ref)
          | error e => rfl
      | _ => rfl
  | get ref fault complete => exact absurd rfl hcall
  | delete ref fault => exact absurd rfl hcall
  | existence ref fault => exact absurd rfl hcall
  | verify ref fault => exact absurd rfl hcall
  | _ => rfl

/-- An operation can only end what is kept. -/
theorem kept_of_none (hcall : call.uuid? = none) :
    ∀ k ∈ kept store ((call, outcome) :: history), k ∈ kept store history ∧
      ∀ ref key, call = .delete ref none → store.keyForRef ref = .ok key →
        k.1.sha256 ≠ ref.sha256 := by
  intro k hk
  cases call with
  | delete ref fault =>
      cases fault with
      | some fault => exact ⟨hk, by simp⟩
      | none =>
          simp only [kept] at hk
          cases hkey : store.keyForRef ref with
          | error e =>
              rw [hkey] at hk
              refine ⟨hk, ?_⟩
              rintro r key heq hr
              obtain ⟨rfl, -⟩ := Call.delete.inj heq
              rw [hkey] at hr
              cases hr
          | ok key =>
              rw [hkey] at hk
              obtain ⟨hmem, hne⟩ := List.mem_filter.mp hk
              refine ⟨hmem, ?_⟩
              rintro r _ heq -
              obtain ⟨rfl, -⟩ := Call.delete.inj heq
              exact of_decide_eq_true hne
  | get ref fault complete => exact ⟨hk, by simp⟩
  | existence ref fault => exact ⟨hk, by simp⟩
  | verify ref fault => exact ⟨hk, by simp⟩
  | start => cases hcall
  | chunk => cases hcall
  | raise => cases hcall
  | upload => cases hcall
  | copy => cases hcall
  | settle => cases hcall
  | cleanUp => cases hcall

theorem mediaTypeOf_of_ne (hstart : ∀ mediaType limit, call ≠ .start uuid mediaType limit) :
    mediaTypeOf uuid ((call, outcome) :: history) = mediaTypeOf uuid history := by
  cases call with
  | start u mediaType limit =>
      apply if_neg
      rintro rfl
      exact hstart mediaType limit rfl
  | _ => rfl

theorem lastCopied_of_ne {digest : HexText 64} (hcopied : ∀ added, outcome ≠ .copied added)
    (hdelete : ∀ ref key, call = .delete ref none → store.keyForRef ref ≠ .ok key) :
    lastCopied store digest ((call, outcome) :: history) = lastCopied store digest history := by
  cases call with
  | copy u fault =>
      cases outcome with
      | copied added => exact absurd rfl (hcopied added)
      | _ => rfl
  | delete ref fault =>
      cases fault with
      | some fault => rfl
      | none =>
          simp only [lastCopied]
          cases hkey : store.keyForRef ref with
          | error e => rfl
          | ok key => exact absurd hkey (hdelete ref key rfl)
  | _ => rfl

/-! ## What the history says of the metadata -/

/-- Every put was there before, with the same media type. -/
def Continues (s s' : State) : Prop :=
  ∀ uuid put', s'.put? uuid = some put' →
    ∃ put, s.put? uuid = some put ∧ put'.mediaType = put.mediaType

theorem Continues.of_pending (h : s'.pending = s.pending) : Continues s s' := by
  intro uuid put hput
  rw [State.put?, h] at hput
  exact ⟨put, hput, rfl⟩

theorem continues_update {f : Put → Put} (huuid : ∀ p, (f p).uuid = p.uuid)
    (hmedia : ∀ p, (f p).mediaType = p.mediaType) : Continues s (s.update uuid f) := by
  intro u put' hput'
  rw [State.put?_update huuid] at hput'
  obtain ⟨put, hput, rfl⟩ := Option.map_eq_some_iff.mp hput'
  refine ⟨put, hput, ?_⟩
  split
  · exact hmedia put
  · rfl

theorem continues_close : Continues s (s.close uuid) := by
  intro u put hput
  rw [State.put?_close] at hput
  split at hput
  · cases hput
  · exact ⟨put, hput, rfl⟩

theorem continues_chunk (put : Put) (bytes : Bytes) (s : State) :
    Continues s (chunk put bytes s).2 := by
  unfold chunk
  split
  · exact continues_close
  · exact continues_update (fun _ => rfl) fun _ => rfl

theorem continues_copy (put : Put) (fault : Option Fault) (s : State) :
    Continues s (store.copy put fault s).2 := by
  unfold copy
  dsimp only
  split <;> exact continues_update (fun _ => rfl) fun _ => rfl

/-- Only its start adds a put. -/
theorem continues_of_step (hstep : step store s call = some (outcome, s'))
    (hstart : ∀ uuid mediaType limit, call ≠ .start uuid mediaType limit) : Continues s s' := by
  cases call with
  | start u mediaType limit => exact absurd rfl (hstart u mediaType limit)
  | chunk u bytes =>
      obtain ⟨put, hput, hresult⟩ := Option.map_eq_some_iff.mp hstep
      obtain ⟨-, rfl⟩ := Prod.mk.inj hresult
      exact continues_chunk put bytes s
  | raise u =>
      obtain ⟨put, hput, hresult⟩ := Option.map_eq_some_iff.mp hstep
      obtain ⟨-, rfl⟩ := Prod.mk.inj hresult
      exact continues_close
  | upload u fault =>
      obtain ⟨put, hput, hresult⟩ := Option.map_eq_some_iff.mp hstep
      obtain ⟨-, rfl⟩ := Prod.mk.inj hresult
      cases fault <;> exact continues_update (fun _ => rfl) fun _ => rfl
  | copy u fault =>
      obtain ⟨put, hput, hresult⟩ := Option.map_eq_some_iff.mp hstep
      obtain ⟨-, rfl⟩ := Prod.mk.inj hresult
      exact continues_copy put fault s
  | settle u fault =>
      obtain ⟨put, hput, hresult⟩ := Option.map_eq_some_iff.mp hstep
      obtain ⟨-, rfl⟩ := Prod.mk.inj hresult
      cases fault with
      | some fault => exact continues_update (fun _ => rfl) fun _ => rfl
      | none => exact continues_close
  | cleanUp u fault =>
      obtain ⟨put, error, -, -, -, -, rfl⟩ := step_cleanUp hstep
      cases fault <;> exact continues_close
  | get ref fault complete => exact .of_pending (step_other hstep rfl).1
  | delete ref fault => exact .of_pending (step_other hstep rfl).1
  | existence ref fault => exact .of_pending (step_other hstep rfl).1
  | verify ref fault => exact .of_pending (step_other hstep rfl).1

/-- A step that says it has copied is the copy of a put. -/
theorem copy_of_copied {added : Bool} (hstep : step store s call = some (.copied added, s')) :
    ∃ uuid fault, call = .copy uuid fault := by
  cases hcall : call.uuid? with
  | none => exact absurd rfl (outcome_ne_copied hstep hcall added)
  | some u =>
      cases call with
      | copy u fault => exact ⟨u, fault, rfl⟩
      | start u mediaType limit =>
          have houtcome := congrArg Prod.fst (Option.some.inj hstep)
          unfold start at houtcome
          split at houtcome <;> cases houtcome
      | chunk u bytes =>
          obtain ⟨put, -, hresult⟩ := Option.map_eq_some_iff.mp hstep
          have houtcome := congrArg Prod.fst hresult
          unfold chunk at houtcome
          split at houtcome <;> cases houtcome
      | raise u =>
          obtain ⟨put, -, hresult⟩ := Option.map_eq_some_iff.mp hstep
          cases congrArg Prod.fst hresult
      | upload u fault =>
          obtain ⟨put, -, hresult⟩ := Option.map_eq_some_iff.mp hstep
          cases congrArg Prod.fst hresult
      | settle u fault =>
          obtain ⟨put, -, hresult⟩ := Option.map_eq_some_iff.mp hstep
          have houtcome := congrArg Prod.fst hresult
          cases fault <;> cases houtcome
      | cleanUp u fault =>
          obtain ⟨put, error, -, -, -, houtcome, -⟩ := step_cleanUp hstep
          cases houtcome
      | _ => cases hcall

/-- The media types of the puts in progress and of the objects are those of the history. -/
structure Traced (store : S3ArtifactStore) (history : History) (s : State) : Prop where
  puts : ∀ uuid put, s.put? uuid = some put → mediaTypeOf uuid history = some put.mediaType
  objects : ∀ digest : HexText 64,
    (s.objects (store.keyOf digest.val)).map (fun object => object.metadata.mediaType) =
      lastCopied store digest history

theorem Traced.empty (h : Empty store s) : Traced store [] s := by
  obtain ⟨hpending, -, hobjects⟩ := h
  constructor
  · intro uuid put hput
    rw [State.put?, hpending, List.find?_nil] at hput
    cases hput
  · intro digest
    rw [hobjects _ (directory_keyOf _)]
    rfl

/-! ## What every careful run preserves -/

/-- The object of a reference and its media type. -/
def Held (store : S3ArtifactStore) (history : History) (s : State)
    (k : ArtifactRef × Bytes) : Prop :=
  k.2 ∈ contents history ∧ k.1 = store.refOf k.1.mediaType k.2 ∧
    ∃ object, s.objects (store.keyOf (store.hexdigest k.2).val) = some object ∧
      object.metadata.mediaType = k.1.mediaType

/-- No copy of the put has added an object. -/
def AddsNothing (uuid : HexText 32) (history : History) : Prop :=
  (.copy uuid none, .copied true) ∉ history

structure Sound (store : S3ArtifactStore) (history : History) (s : State) : Prop where
  object : ∀ digest : HexText 64, ∀ object,
    s.objects (store.keyOf digest.val) = some object →
      store.hexdigest object.body = digest ∧ object.body ∈ contents history ∧
        object.metadata = metadata (store.refOf object.metadata.mediaType object.body)
  uploaded : ∀ uuid put, s.put? uuid = some put → put.phase = .uploaded →
    s.objects (store.temporaryKey uuid) = some
      { body := put.written, metadata := metadata (store.refOf put.mediaType put.written) }
  sent : ∀ uuid put, s.put? uuid = some put → put.written = sent uuid history
  copied : ∀ uuid put, s.put? uuid = some put → put.phase = .copied →
    put.written ∈ contents history
  fresh : ∀ uuid put, s.put? uuid = some put → put.phase ≠ .copied → AddsNothing uuid history
  begun : ∀ call outcome uuid, (call, outcome) ∈ history → call.uuid? = some uuid →
    uuid ∈ uuids history
  waits : ∀ uuid put, s.put? uuid = some put → uuid ∈ uuids history
  ended : ∀ call result uuid, (call, .put result) ∈ history → call.uuid? = some uuid →
    s.put? uuid = none
  raised : ∀ call error uuid, (call, .put (.error error)) ∈ history → call.uuid? = some uuid →
    AddsNothing uuid history
  kept : ∀ k ∈ kept store history, Held store history s k
  touched : ∀ key ∈ s.touched, store.directory <+: key

theorem Sound.empty (h : Empty store s) : Sound store [] s := by
  obtain ⟨hpending, htouched, hobjects⟩ := h
  have hput : ∀ uuid, s.put? uuid = none := by
    intro uuid
    rw [State.put?, hpending, List.find?_nil]
  constructor
  · intro digest object hobject
    rw [hobjects _ (directory_keyOf _)] at hobject
    cases hobject
  · intro uuid put hsome
    simp [hput] at hsome
  · intro uuid put hsome
    simp [hput] at hsome
  · intro uuid put hsome
    simp [hput] at hsome
  · intro uuid put hsome
    simp [hput] at hsome
  · intro call outcome uuid hmem
    simp at hmem
  · intro uuid put hsome
    simp [hput] at hsome
  · intro call result uuid hmem
    simp at hmem
  · intro call error uuid hmem
    simp at hmem
  · intro k hk
    simp [S3.kept] at hk
  · intro key hkey
    simp [htouched] at hkey

theorem AddsNothing.cons (h : AddsNothing uuid history)
    (hcopied : ∀ added, outcome ≠ .copied added) : AddsNothing uuid ((call, outcome) :: history) := by
  intro hmem
  rcases List.mem_cons.mp hmem with heq | hmem
  · exact hcopied true (Prod.mk.inj heq).2.symm
  · exact h hmem

theorem AddsNothing.cons_of_ne (h : AddsNothing uuid history) (hcall : call.uuid? ≠ some uuid) :
    AddsNothing uuid ((call, outcome) :: history) := by
  intro hmem
  rcases List.mem_cons.mp hmem with heq | hmem
  · obtain ⟨rfl, -⟩ := Prod.mk.inj heq
    exact hcall rfl
  · exact h hmem

/-- What is held stays so while its object does. -/
theorem Held.mono {k : ArtifactRef × Bytes} (h : Held store history s k)
    (item : Call × Outcome)
    (hobject : s'.objects (store.keyOf (store.hexdigest k.2).val) =
      s.objects (store.keyOf (store.hexdigest k.2).val)) : Held store (item :: history) s' k := by
  obtain ⟨hmem, href, object, hobj, hmedia⟩ := h
  exact ⟨(contents_suffix item history).subset hmem, href, object, hobject.trans hobj, hmedia⟩

/-- A step of a put, but for a copy that succeeds. -/
theorem Sound.turn (h : Sound store history s) (hframe : Frame store uuid s s')
    (hcall : call.uuid? = some uuid) (hcopied : ∀ added, outcome ≠ .copied added)
    (hbegun : uuid ∈ uuids ((call, outcome) :: history))
    (hput : ∀ put, s'.put? uuid = some put → outcome = .waiting ∧
      put.written = S3.sent uuid ((call, outcome) :: history) ∧ put.phase ≠ .copied ∧
      (put.phase = .uploaded → s'.objects (store.temporaryKey uuid) = some
        { body := put.written, metadata := metadata (store.refOf put.mediaType put.written) }) ∧
      AddsNothing uuid history ∧ (uuid ∉ uuids history ∨ s.put? uuid ≠ none))
    (herror : ∀ error, outcome = .put (.error error) → AddsNothing uuid history)
    (hkept : ∀ k ∈ S3.kept store ((call, outcome) :: history),
      k ∈ S3.kept store history ∨ Held store ((call, outcome) :: history) s' k) :
    Sound store ((call, outcome) :: history) s' := by
  have hsuffix := uuids_suffix (call, outcome) history
  have hcontents : contents ((call, outcome) :: history) = contents history :=
    contents_of_ne hcopied
  constructor
  · intro digest object hobject
    rw [hframe.objects _ (temporaryKey_ne_keyOf uuid digest.val).symm] at hobject
    rw [hcontents]
    exact h.object digest object hobject
  · intro u put hsome hphase
    by_cases hu : u = uuid
    · rw [hu] at hsome ⊢
      exact (hput put hsome).2.2.2.1 hphase
    · rw [hframe.puts u hu] at hsome
      rw [hframe.objects _ fun heq => hu (temporaryKey_injective heq)]
      exact h.uploaded u put hsome hphase
  · intro u put hsome
    by_cases hu : u = uuid
    · rw [hu] at hsome ⊢
      exact (hput put hsome).2.1
    · rw [hframe.puts u hu] at hsome
      rw [h.sent u put hsome, sent_of_ne]
      rw [hcall]
      exact fun heq => hu (Option.some.inj heq).symm
  · intro u put hsome hphase
    by_cases hu : u = uuid
    · rw [hu] at hsome
      exact absurd hphase (hput put hsome).2.2.1
    · rw [hframe.puts u hu] at hsome
      rw [hcontents]
      exact h.copied u put hsome hphase
  · intro u put hsome hphase
    by_cases hu : u = uuid
    · rw [hu] at hsome ⊢
      exact (hput put hsome).2.2.2.2.1.cons hcopied
    · rw [hframe.puts u hu] at hsome
      exact (h.fresh u put hsome hphase).cons hcopied
  · intro c o u hmem hc
    rcases List.mem_cons.mp hmem with heq | hmem
    · obtain ⟨rfl, rfl⟩ := Prod.mk.inj heq
      obtain rfl : u = uuid := Option.some.inj (hc.symm.trans hcall)
      exact hbegun
    · exact hsuffix.subset (h.begun c o u hmem hc)
  · intro u put hsome
    by_cases hu : u = uuid
    · exact hu ▸ hbegun
    · rw [hframe.puts u hu] at hsome
      exact hsuffix.subset (h.waits u put hsome)
  · intro c result u hmem hc
    rcases List.mem_cons.mp hmem with heq | hmem
    · obtain ⟨rfl, rfl⟩ := Prod.mk.inj heq
      obtain rfl : u = uuid := Option.some.inj (hc.symm.trans hcall)
      cases hsome : s'.put? u with
      | none => rfl
      | some put => exact absurd (hput put hsome).1 (by simp)
    · have hnone := h.ended c result u hmem hc
      by_cases hu : u = uuid
      · rw [hu] at hnone hc ⊢
        cases hsome : s'.put? uuid with
        | none => rfl
        | some put =>
            rcases (hput put hsome).2.2.2.2.2 with hnew | hwaits
            · exact absurd (h.begun c _ uuid hmem hc) hnew
            · exact absurd hnone hwaits
      · rw [hframe.puts u hu, hnone]
  · intro c error u hmem hc
    rcases List.mem_cons.mp hmem with heq | hmem
    · obtain ⟨rfl, rfl⟩ := Prod.mk.inj heq
      obtain rfl : u = uuid := Option.some.inj (hc.symm.trans hcall)
      exact (herror error rfl).cons hcopied
    · exact (h.raised c error u hmem hc).cons hcopied
  · intro k hk
    rcases hkept k hk with hk | hk
    · apply (h.kept k hk).mono
      exact hframe.objects _ (temporaryKey_ne_keyOf uuid _).symm
    · exact hk
  · intro key hkey
    exact (hframe.touched key hkey).elim (h.touched key) id

/-- A step of a put that leaves it waiting. -/
theorem Sound.goesOn (put : Put) (h : Sound store history s) (hframe : Frame store uuid s s')
    (hcall : call.uuid? = some uuid) (hbegun : uuid ∈ uuids ((call, .waiting) :: history))
    (hput' : s'.put? uuid = some put)
    (hsent : put.written = S3.sent uuid ((call, .waiting) :: history))
    (hphase : put.phase ≠ .copied)
    (huploaded : put.phase = .uploaded → s'.objects (store.temporaryKey uuid) = some
      { body := put.written, metadata := metadata (store.refOf put.mediaType put.written) })
    (hadds : AddsNothing uuid history) (hwaits : uuid ∉ uuids history ∨ s.put? uuid ≠ none) :
    Sound store ((call, .waiting) :: history) s' := by
  refine h.turn hframe hcall (by simp) hbegun ?_ (by simp) ?_
  · intro other hsome
    obtain rfl := Option.some.inj (hput'.symm.trans hsome)
    exact ⟨rfl, hsent, hphase, huploaded, hadds, hwaits⟩
  · intro k hk
    rw [kept_of_ne (by simp [hcall]) (by simp)] at hk
    exact Or.inl hk

/-- A step at which a put fails for good. -/
theorem Sound.fails {error : Error} (h : Sound store history s) (hframe : Frame store uuid s s')
    (hcall : call.uuid? = some uuid)
    (hbegun : uuid ∈ uuids ((call, .put (.error error)) :: history))
    (hover : s'.put? uuid = none) (hadds : AddsNothing uuid history) :
    Sound store ((call, .put (.error error)) :: history) s' := by
  refine h.turn hframe hcall (by simp) hbegun ?_ (fun _ _ => hadds) ?_
  · intro put hsome
    simp [hover] at hsome
  · intro k hk
    rw [kept_of_ne (by simp [hcall]) (by simp)] at hk
    exact Or.inl hk

/-- A copy that succeeds, and gives no other media type to what is kept. -/
theorem Sound.copies {added : Bool} (h : Sound store history s)
    (hstep : step store s (.copy uuid none) = some (.copied added, s'))
    (hcareful : Careful store history s (.copy uuid none)) :
    Sound store ((.copy uuid none, .copied added) :: history) s' := by
  obtain ⟨-, put, object, hput, hphase, rfl, hobject, -, hobjects, hputs, htouched⟩ :=
    step_copied hstep
  rw [h.uploaded put.uuid put hput hphase, Option.some_inj] at hobject
  have hsent := h.sent put.uuid put hput
  have hsuffix := contents_suffix (.copy put.uuid none, .copied added) history
  have hmem : put.written ∈ contents ((.copy put.uuid none, .copied added) :: history) := by
    rw [hsent]
    exact List.mem_cons_self
  have hself : s'.put? put.uuid = some { put with phase := .copied } := by
    rw [hputs, hput, Option.map_some, if_pos rfl]
  have hother : ∀ u other, u ≠ put.uuid → s'.put? u = some other → s.put? u = some other := by
    intro u other hu hsome
    rw [hputs u] at hsome
    simpa [hu] using hsome
  constructor
  · intro digest object' hobject'
    by_cases hdigest : digest = store.hexdigest put.written
    · rw [hdigest, hobjects, Function.update_self, Option.some_inj] at hobject'
      rw [← hobject', ← hobject, hdigest]
      exact ⟨rfl, hmem, rfl⟩
    · have hkey : store.keyOf digest.val ≠ store.keyOf (store.hexdigest put.written).val :=
        fun heq => hdigest (keyOf_hex_injective heq)
      rw [hobjects, Function.update_of_ne hkey] at hobject'
      obtain ⟨hbody, hcontents, hmetadata⟩ := h.object digest object' hobject'
      exact ⟨hbody, hsuffix.subset hcontents, hmetadata⟩
  · intro u other hsome hother'
    by_cases hu : u = put.uuid
    · rw [hu, hself] at hsome
      obtain rfl := Option.some.inj hsome
      simp at hother'
    · rw [hobjects, Function.update_of_ne (temporaryKey_ne_keyOf u _)]
      exact h.uploaded u other (hother u other hu hsome) hother'
  · intro u other hsome
    by_cases hu : u = put.uuid
    · rw [hu, hself] at hsome
      obtain rfl := Option.some.inj hsome
      rw [hu]
      exact hsent
    · exact h.sent u other (hother u other hu hsome)
  · intro u other hsome hother'
    by_cases hu : u = put.uuid
    · rw [hu, hself] at hsome
      obtain rfl := Option.some.inj hsome
      exact hmem
    · exact hsuffix.subset (h.copied u other (hother u other hu hsome) hother')
  · intro u other hsome hother'
    by_cases hu : u = put.uuid
    · rw [hu, hself] at hsome
      obtain rfl := Option.some.inj hsome
      simp at hother'
    · apply (h.fresh u other (hother u other hu hsome) hother').cons_of_ne
      exact fun heq => hu (Option.some.inj heq).symm
  · intro c o u hmem hc
    rcases List.mem_cons.mp hmem with heq | hmem
    · obtain ⟨rfl, -⟩ := Prod.mk.inj heq
      obtain rfl : put.uuid = u := Option.some.inj hc
      exact h.waits put.uuid put hput
    · exact h.begun c o u hmem hc
  · intro u other hsome
    by_cases hu : u = put.uuid
    · exact hu ▸ h.waits put.uuid put hput
    · exact h.waits u other (hother u other hu hsome)
  · intro c result u hmem hc
    rcases List.mem_cons.mp hmem with heq | hmem
    · cases (Prod.mk.inj heq).2
    · rw [hputs, h.ended c result u hmem hc]
      rfl
  · intro c error u hmem hc
    rcases List.mem_cons.mp hmem with heq | hmem
    · cases (Prod.mk.inj heq).2
    · apply (h.raised c error u hmem hc).cons_of_ne
      intro heq
      obtain rfl : put.uuid = u := Option.some.inj heq
      simp [h.ended c _ put.uuid hmem hc] at hput
  · intro k hk
    obtain ⟨hmem, href, object', hobject', hmedia⟩ := h.kept k hk
    by_cases hdigest : store.hexdigest k.2 = store.hexdigest put.written
    · refine ⟨hsuffix.subset hmem, href, object, ?_, ?_⟩
      · rw [hdigest, hobjects, Function.update_self]
      · have hsha : k.1.sha256 = (store.hexdigest put.written).val := by
          rw [href, ← hdigest]
          rfl
        rw [hcareful put hput k hk hsha, ← hobject]
        rfl
    · apply Held.mono ⟨hmem, href, object', hobject', hmedia⟩
      rw [hobjects, Function.update_of_ne fun heq => hdigest (keyOf_hex_injective heq)]
  · intro key hkey
    exact (htouched key hkey).elim (h.touched key) id

/-- Any other operation. -/
theorem Sound.operates (h : Sound store history s) (hcall : call.uuid? = none)
    (hstep : step store s call = some (outcome, s')) :
    Sound store ((call, outcome) :: history) s' := by
  obtain ⟨hpending, htouched, hobjects, -⟩ := step_other hstep hcall
  have hcopied := outcome_ne_copied hstep hcall
  have hput : ∀ u, s'.put? u = s.put? u := by
    intro u
    rw [State.put?, hpending, State.put?]
  have hcontents : contents ((call, outcome) :: history) = contents history :=
    contents_of_ne hcopied
  have hsuffix := uuids_suffix (call, outcome) history
  have hfewer : ∀ key object, s'.objects key = some object → s.objects key = some object := by
    intro key object hobject
    rcases hobjects with heq | ⟨ref, key', -, -, heq⟩
    · rwa [heq] at hobject
    · by_cases hkey : key = key'
      · rw [heq, hkey, Function.update_self] at hobject
        cases hobject
      · rwa [heq, Function.update_of_ne hkey] at hobject
  constructor
  · intro digest object hobject
    rw [hcontents]
    exact h.object digest object (hfewer _ _ hobject)
  · intro u put hsome hphase
    rw [hput] at hsome
    have hup := h.uploaded u put hsome hphase
    rcases hobjects with heq | ⟨ref, key, -, hkey, heq⟩
    · rw [heq, hup]
    · obtain ⟨-, -, rfl⟩ := keyForRef_eq_ok.mp hkey
      rw [heq, Function.update_of_ne (temporaryKey_ne_keyOf u _), hup]
  · intro u put hsome
    rw [hput] at hsome
    rw [h.sent u put hsome, sent_of_ne (by simp [hcall])]
  · intro u put hsome hphase
    rw [hput] at hsome
    rw [hcontents]
    exact h.copied u put hsome hphase
  · intro u put hsome hphase
    rw [hput] at hsome
    exact (h.fresh u put hsome hphase).cons hcopied
  · intro c o u hmem hc
    rcases List.mem_cons.mp hmem with heq | hmem
    · obtain ⟨rfl, -⟩ := Prod.mk.inj heq
      simp [hcall] at hc
    · exact hsuffix.subset (h.begun c o u hmem hc)
  · intro u put hsome
    rw [hput] at hsome
    exact hsuffix.subset (h.waits u put hsome)
  · intro c result u hmem hc
    rcases List.mem_cons.mp hmem with heq | hmem
    · obtain ⟨rfl, -⟩ := Prod.mk.inj heq
      simp [hcall] at hc
    · rw [hput, h.ended c result u hmem hc]
  · intro c error u hmem hc
    rcases List.mem_cons.mp hmem with heq | hmem
    · obtain ⟨rfl, -⟩ := Prod.mk.inj heq
      simp [hcall] at hc
    · exact (h.raised c error u hmem hc).cons hcopied
  · intro k hk
    obtain ⟨hk, hdeleted⟩ := kept_of_none hcall k hk
    have hheld := h.kept k hk
    apply hheld.mono
    rcases hobjects with heq | ⟨ref, key, hdelete, hkey, heq⟩
    · rw [heq]
    · have hne := hdeleted ref key hdelete hkey
      obtain ⟨⟨digest, hdigest⟩, -, rfl⟩ := keyForRef_eq_ok.mp hkey
      rw [heq, Function.update_of_ne]
      intro hsame
      rw [← hdigest] at hsame hne
      apply hne
      rw [hheld.2.1, ← keyOf_hex_injective hsame]
      rfl
  · intro key hkey
    exact (htouched key hkey).elim (h.touched key) id

/-- The put that was started, unless it was there before. -/
theorem put?_start {put put' : Put} (h : (start put s).2.put? put.uuid = some put') :
    s.put? put.uuid = some put' ∨ put' = put := by
  unfold start at h
  split at h
  · exact Or.inl h
  · have hfirst : State.put? { s with pending := put :: s.pending } put.uuid = some put :=
      List.find?_cons_of_pos (by simp)
    exact Or.inr (Option.some.inj (h.symm.trans hfirst))

/-- The media type of every put, after one more step. -/
theorem Traced.puts_next (h : Traced store history s) (hsound : Sound store history s)
    (hstep : step store s call = some (outcome, s'))
    (hfresh : (uuids ((call, outcome) :: history)).Nodup) :
    ∀ uuid put, s'.put? uuid = some put →
      mediaTypeOf uuid ((call, outcome) :: history) = some put.mediaType := by
  intro u put hput
  by_cases hstart : ∃ u' mediaType limit, call = .start u' mediaType limit
  · obtain ⟨u', mediaType, limit, rfl⟩ := hstart
    have hnew : u' ∉ uuids history := (List.nodup_cons.mp hfresh).1
    obtain ⟨-, rfl⟩ := Prod.mk.inj (Option.some.inj hstep)
    by_cases hu : u' = u
    · rw [← hu] at hput ⊢
      rw [mediaTypeOf, if_pos rfl]
      rcases put?_start hput with hbefore | rfl
      · exact absurd (hsound.waits u' put hbefore) hnew
      · rfl
    · rw [mediaTypeOf, if_neg hu]
      have hsame := (@frame_start store ⟨u', mediaType, limit, [], .reading⟩ s).puts u
        fun heq => hu heq.symm
      exact h.puts u put (hsame.symm.trans hput)
  · push Not at hstart
    obtain ⟨before, hbefore, hmedia⟩ := continues_of_step hstep hstart u put hput
    rw [mediaTypeOf_of_ne (hstart u), h.puts u before hbefore, hmedia]

/-- The media type of every object, after one more step. -/
theorem Traced.objects_next (h : Traced store history s) (hsound : Sound store history s)
    (hstep : step store s call = some (outcome, s')) (digest : HexText 64) :
    (s'.objects (store.keyOf digest.val)).map (fun object => object.metadata.mediaType) =
      lastCopied store digest ((call, outcome) :: history) := by
  by_cases hcopied : ∃ added, outcome = .copied added
  · -- the object under the key is now the one the put has uploaded
    obtain ⟨added, rfl⟩ := hcopied
    obtain ⟨u, fault, rfl⟩ := copy_of_copied hstep
    obtain ⟨-, put, object, hput, hphase, rfl, hobject, -, hobjects, -⟩ := step_copied hstep
    rw [hsound.uploaded put.uuid put hput hphase, Option.some_inj] at hobject
    rw [lastCopied, ← hsound.sent put.uuid put hput, hobjects]
    by_cases hdigest : store.hexdigest put.written = digest
    · rw [if_pos hdigest, h.puts put.uuid put hput, hdigest, Function.update_self, ← hobject]
      rfl
    · have hkey : store.keyOf digest.val ≠ store.keyOf (store.hexdigest put.written).val :=
        fun heq => hdigest (keyOf_hex_injective heq).symm
      rw [if_neg hdigest, Function.update_of_ne hkey, h.objects digest]
  · push Not at hcopied
    by_cases hdelete : ∃ ref key, call = .delete ref none ∧ store.keyForRef ref = .ok key
    · -- the key of the reference is empty now
      obtain ⟨ref, key, rfl, hkey⟩ := hdelete
      have hobjects := (step_other hstep rfl).2.2.2 ref key rfl hkey
      obtain ⟨⟨deleted, hdeleted⟩, -, rfl⟩ := keyForRef_eq_ok.mp hkey
      simp only [lastCopied, hkey, hobjects]
      rw [← hdeleted]
      by_cases hdigest : deleted = digest
      · rw [if_pos (congrArg Subtype.val hdigest), hdigest, Function.update_self]
        rfl
      · have hne : store.keyOf digest.val ≠ store.keyOf deleted.val :=
          fun heq => hdigest (keyOf_hex_injective heq).symm
        rw [if_neg fun heq => hdigest (Subtype.ext heq), Function.update_of_ne hne,
          h.objects digest]
    · -- no other step touches an object under the key of a digest
      push Not at hdelete
      have hsame : s'.objects (store.keyOf digest.val) = s.objects (store.keyOf digest.val) := by
        cases hcall : call.uuid? with
        | some u =>
            have hframe := frame_of_step hstep hcall hcopied
            exact hframe.objects _ (temporaryKey_ne_keyOf u digest.val).symm
        | none =>
            rcases (step_other hstep hcall).2.2.1 with heq | ⟨ref, key, hcall, hkey, -⟩
            · rw [heq]
            · exact absurd hkey (hdelete ref key hcall)
      rw [lastCopied_of_ne hcopied hdelete, hsame, h.objects digest]

/-- One more entry, if the step is careful. -/
theorem Sound.next (h : Sound store history s) (htraced : Traced store history s)
    (hstep : step store s call = some (outcome, s'))
    (hfresh : (uuids ((call, outcome) :: history)).Nodup)
    (hcareful : Careful store history s call) : Sound store ((call, outcome) :: history) s' := by
  cases call with
  | start u mediaType expectedMaxBytes =>
      have hnew : u ∉ uuids history := (List.nodup_cons.mp hfresh).1
      -- no step of a put with this name came before
      have hadds : AddsNothing u history :=
        fun hmem => hnew (h.begun _ _ u hmem rfl)
      by_cases hlimit : expectedMaxBytes < 0
      · simp only [step, start, if_pos hlimit, Option.some.injEq, Prod.map_apply,
          Prod.mk.injEq] at hstep
        obtain ⟨rfl, rfl⟩ := hstep
        refine h.fails (Frame.refl u _) rfl List.mem_cons_self ?_ hadds
        cases hsome : (id s : State).put? u with
        | none => rfl
        | some put => exact absurd (h.waits u put hsome) hnew
      · have hframe (hcopied : ∀ added, outcome ≠ .copied added) : Frame store u s s' :=
          frame_of_step hstep rfl hcopied
        simp only [step, start, if_neg hlimit, Option.some.injEq, Prod.map_apply,
          Prod.mk.injEq] at hstep
        obtain ⟨rfl, rfl⟩ := hstep
        refine h.goesOn _ (hframe (by simp [Outcome.ofUnit])) rfl List.mem_cons_self
          (List.find?_cons_of_pos (by simp)) ?_ (by simp) (by simp) hadds (Or.inl hnew)
        simp [S3.sent]
  | chunk u bytes =>
      obtain ⟨put, hput, hresult⟩ := Option.map_eq_some_iff.mp hstep
      obtain ⟨hput, hphase, rfl⟩ := at?_eq_some hput
      have hbegun := h.waits put.uuid put hput
      have hadds := h.fresh put.uuid put hput (by simp [hphase])
      have hframe := @frame_chunk store put bytes s
      by_cases hlimit : ((put.written.length + bytes.length : ℕ) : ℤ) > put.expectedMaxBytes
      · rw [chunk, if_pos hlimit] at hframe hresult
        obtain ⟨rfl, rfl⟩ := Prod.mk.inj hresult
        exact h.fails hframe rfl hbegun (by rw [id, State.put?_close, if_pos rfl]) hadds
      · rw [chunk, if_neg hlimit] at hframe hresult
        obtain ⟨rfl, rfl⟩ := Prod.mk.inj hresult
        refine h.goesOn { put with written := put.written ++ bytes } hframe rfl hbegun
          ?_ ?_ (by simp [hphase]) (by simp [hphase]) hadds (Or.inr (by simp [hput]))
        · exact State.put?_update_self (f := fun p => { p with written := p.written ++ bytes })
            (fun _ => rfl) hput
        · rw [h.sent put.uuid put hput, S3.sent, if_pos rfl]
  | raise u =>
      obtain ⟨put, hput, hresult⟩ := Option.map_eq_some_iff.mp hstep
      obtain ⟨hput, hphase, rfl⟩ := at?_eq_some hput
      obtain ⟨rfl, rfl⟩ := Prod.mk.inj hresult
      have hbegun : put.uuid ∈ uuids ((.raise put.uuid, .put (.error .stream)) :: history) :=
        h.waits put.uuid put hput
      apply h.fails (frame_close put.uuid s) rfl hbegun
      · rw [State.put?_close, if_pos rfl]
      · exact h.fresh put.uuid put hput (by simp [hphase])
  | upload u fault =>
      obtain ⟨put, hput, hresult⟩ := Option.map_eq_some_iff.mp hstep
      obtain ⟨hput, hphase, rfl⟩ := at?_eq_some hput
      obtain ⟨rfl, rfl⟩ := Prod.mk.inj hresult
      have hbegun := h.waits put.uuid put hput
      have hadds := h.fresh put.uuid put hput (by simp [hphase])
      have hsent := h.sent put.uuid put hput
      have hwaits : s.put? put.uuid ≠ none := by simp [hput]
      have hframe := @frame_upload store put fault s
      cases fault with
      | some fault =>
          refine h.goesOn { put with phase := .failed (storageError "put" fault) }
            hframe rfl hbegun ?_ hsent (by simp) (by simp) hadds (Or.inr hwaits)
          exact State.put?_setPhase_self _ hput
      | none =>
          refine h.goesOn { put with phase := .uploaded }
            hframe rfl hbegun ?_ hsent (by simp) ?_ hadds (Or.inr hwaits)
          · exact State.put?_setPhase_self _ hput
          · intro _
            exact Function.update_self ..
  | copy u fault =>
      obtain ⟨put, hput, hresult⟩ := Option.map_eq_some_iff.mp hstep
      obtain ⟨hput, hphase, rfl⟩ := at?_eq_some hput
      have houtcome : .ofCopy (store.copy put fault s).1 = outcome := congrArg Prod.fst hresult
      have hstate : (store.copy put fault s).2 = s' := congrArg Prod.snd hresult
      cases hadded : (store.copy put fault s).1 with
      | some added =>
          -- the only step of a put that changes the object of a digest
          rw [hadded] at houtcome
          rw [← houtcome] at hstep ⊢
          obtain ⟨rfl, -⟩ := step_copied hstep
          exact h.copies hstep hcareful
      | none =>
          obtain ⟨error, hfailed⟩ := copy_eq_none hadded
          have hframe := frame_copy hadded
          rw [hadded] at houtcome
          rw [hstate] at hframe hfailed
          rw [← houtcome]
          refine h.goesOn { put with phase := .failed error } hframe rfl
            (h.waits put.uuid put hput) ?_ (h.sent put.uuid put hput) (by simp) (by simp)
            (h.fresh put.uuid put hput (by simp [hphase])) (Or.inr (by simp [hput]))
          rw [hfailed]
          exact State.put?_setPhase_self _ hput
  | settle u fault =>
      obtain ⟨put, hput, hresult⟩ := Option.map_eq_some_iff.mp hstep
      obtain ⟨hput, hphase, rfl⟩ := at?_eq_some hput
      have hbegun := h.waits put.uuid put hput
      have hsent := h.sent put.uuid put hput
      have hframe := @frame_settle store put fault s
      cases fault with
      | some fault =>
          obtain ⟨rfl, rfl⟩ := Prod.mk.inj hresult
          refine h.goesOn { put with phase := .failed (storageError "put" fault) }
            hframe rfl hbegun ?_ hsent (by simp) (by simp) hcareful (Or.inr (by simp [hput]))
          exact State.put?_setPhase_self _ hput
      | none =>
          obtain ⟨rfl, rfl⟩ := Prod.mk.inj hresult
          -- the history says that the object still has the metadata of this put
          have hlast := htraced.objects (store.hexdigest put.written)
          rw [hsent, hcareful, htraced.puts put.uuid put hput, ← hsent] at hlast
          obtain ⟨object, hobject, hmedia⟩ := Option.map_eq_some_iff.mp hlast
          refine h.turn hframe rfl (by simp [Outcome.ofSettle]) hbegun ?_ (by
            simp [Outcome.ofSettle]) ?_
          · intro other hsome
            have hnone : ((s.touch (store.temporaryKey put.uuid)).close put.uuid).put? put.uuid =
                none := by rw [State.put?_close, if_pos rfl]
            cases hnone.symm.trans hsome
          · intro k hk
            rcases List.mem_cons.mp hk with rfl | hk
            · right
              rw [Held, ← hsent]
              refine ⟨h.copied put.uuid put hput hphase, rfl, object, ?_, hmedia⟩
              exact (hframe.objects _ (temporaryKey_ne_keyOf put.uuid _).symm).trans hobject
            · exact Or.inl hk
  | cleanUp u fault =>
      obtain ⟨put, error, hput, hphase, rfl, rfl, rfl⟩ := step_cleanUp hstep
      have hbegun : put.uuid ∈ uuids ((.cleanUp put.uuid fault, .put (.error error)) :: history) :=
        h.waits put.uuid put hput
      apply h.fails (frame_cleanUp put fault s) rfl hbegun
      · have hnone : ((s.touch (store.temporaryKey put.uuid)).close put.uuid).put? put.uuid =
            none := by rw [State.put?_close, if_pos rfl]
        cases fault <;> exact hnone
      · exact h.fresh put.uuid put hput (by simp [hphase])
  | get ref fault complete => exact h.operates rfl hstep
  | delete ref fault => exact h.operates rfl hstep
  | existence ref fault => exact h.operates rfl hstep
  | verify ref fault => exact h.operates rfl hstep

/-! ## Every run -/

theorem Run.sound_and_traced (hrun : Run store (Careful store) history s)
    (hfresh : (uuids history).Nodup) : Sound store history s ∧ Traced store history s := by
  induction hrun with
  | initial hempty => exact ⟨Sound.empty hempty, Traced.empty hempty⟩
  | @next history s s' call outcome _ hcareful hstep ih =>
      obtain ⟨hsound, htraced⟩ := ih (hfresh.sublist (uuids_suffix _ history).sublist)
      refine ⟨hsound.next htraced hstep hfresh hcareful, ?_⟩
      exact ⟨htraced.puts_next hsound hstep hfresh, htraced.objects_next hsound hstep⟩

theorem Run.sound (hrun : Run store (Careful store) history s) (hfresh : (uuids history).Nodup) :
    Sound store history s := (hrun.sound_and_traced hfresh).1

theorem uuids_suffix_append (after before : History) :
    uuids before <:+ uuids (after ++ before) := by
  induction after with
  | nil => exact List.suffix_rfl
  | cons item after ih => exact ih.trans (uuids_suffix item (after ++ before))

theorem CollisionFree.tail {after before : History} (h : CollisionFree store (after ++ before)) :
    CollisionFree store before := by
  induction after with
  | nil => exact h
  | cons item after ih => exact ih h.cons

/-- What is held passes `verify`, and `get` returns it. -/
theorem Sound.verified (h : Sound store history s) (hfree : CollisionFree store history)
    {k : ArtifactRef × Bytes} (hk : k ∈ S3.kept store history) :
    store.verify k.1 none s = .ok true ∧ Reads store s k.1 k.2 := by
  obtain ⟨hmem, href, object, hobject, hmedia⟩ := h.kept k hk
  obtain ⟨hdigest, hbody, hmetadata⟩ := h.object (store.hexdigest k.2) object hobject
  have hsame : object.body = k.2 := hfree _ hbody _ hmem hdigest
  have hkey : store.keyForRef k.1 = .ok (store.keyOf (store.hexdigest k.2).val) := by
    rw [href]
    exact keyForRef_refOf k.1.mediaType k.2
  constructor
  · apply verify_eq_true hkey hobject
    · rw [hsame, href]
      rfl
    · rw [hmetadata, hmedia, hsame, ← href]
  · refine reads_iff.mpr ⟨_, object, hkey, hobject, hsame, ?_, ?_⟩
    · rw [href]
      rfl
    · rw [href]
      rfl

/-- A copy over an object adds nothing that can be read. -/
theorem Sound.copied_over {fault : Option Fault} {ref : ArtifactRef} {data : Bytes}
    (h : Sound store history s)
    (hfree : CollisionFree store ((.copy uuid fault, .copied false) :: history))
    (hstep : step store s (.copy uuid fault) = some (.copied false, s'))
    (hreads : Reads store s' ref data) : Reads store s ref data := by
  obtain ⟨-, put, object, hput, hphase, rfl, hobject, hadded, hobjects, -, -⟩ := step_copied hstep
  rw [h.uploaded put.uuid put hput hphase, Option.some_inj] at hobject
  have hsent := h.sent put.uuid put hput
  apply hreads.mono
  intro digest object' hobject'
  by_cases hdigest : digest = store.hexdigest put.written
  · obtain ⟨there, hthere⟩ : ∃ there,
        s.objects (store.keyOf (store.hexdigest put.written).val) = some there := by
      rw [← Option.isSome_iff_exists, ← Option.not_isNone, ← hadded]
      rfl
    rw [hdigest, hobjects, Function.update_self, Option.some_inj] at hobject'
    obtain ⟨hbody, hmem, -⟩ := h.object _ there hthere
    refine ⟨there, hdigest ▸ hthere, ?_⟩
    rw [← hobject', ← hobject]
    apply hfree
    · exact List.mem_cons_of_mem _ hmem
    · rw [hsent]
      exact List.mem_cons_self
    · exact hbody
  · have hkey : store.keyOf digest.val ≠ store.keyOf (store.hexdigest put.written).val :=
      fun heq => hdigest (keyOf_hex_injective heq)
    rw [hobjects, Function.update_of_ne hkey] at hobject'
    exact ⟨object', hobject', rfl⟩

/-- In a run of careful steps the store is a map from digests to contents. -/
theorem contentAddressed_of_careful (hrun : Run store (Careful store) history s)
    (hfresh : (uuids history).Nodup) (hfree : CollisionFree store history) :
    ContentAddressed store (Careful store) history s := by
  have hsound := hrun.sound hfresh
  refine ⟨fun k hk => hsound.verified hfree hk, ?_, ?_, hsound.touched⟩
  · intro call outcome s' hstep hcall hcopied ref data
    obtain ⟨uuid, huuid⟩ := Option.ne_none_iff_exists'.mp hcall
    have hframe := frame_of_step hstep huuid hcopied
    have hobjects : ∀ digest : HexText 64,
        s'.objects (store.keyOf digest.val) = s.objects (store.keyOf digest.val) :=
      fun digest => hframe.objects _ (temporaryKey_ne_keyOf uuid digest.val).symm
    constructor
    · intro hreads
      exact hreads.mono fun digest object hobject =>
        ⟨object, (hobjects digest).symm.trans hobject, rfl⟩
    · intro hreads
      exact hreads.mono fun digest object hobject =>
        ⟨object, (hobjects digest).trans hobject, rfl⟩
  · rintro after before uuid fault added rfl ⟨call, e, hraised, hcall⟩ s₀ s₁ hbefore hstep
      ref data hreads
    have hadds := hsound.raised call e uuid (List.mem_append_left _ hraised) hcall
    obtain ⟨rfl, -⟩ := step_copied hstep
    cases added with
    | true => exact absurd (List.mem_append_right after List.mem_cons_self) hadds
    | false =>
        have hfresh' := hfresh.sublist (uuids_suffix_append after _).sublist
        have hsound₀ := hbefore.sound (hfresh'.sublist (uuids_suffix _ before).sublist)
        exact hsound₀.copied_over hfree.tail hstep hreads

/-! ## The bucket `crawl` -/

def workerStore : S3ArtifactStore where
  bucket := "crawl".toList
  workerId := "worker-a".toList
  hexdigest := sampleDigest
  bucket_ne_nil := by decide +kernel
  isWorkerId_workerId := by decide +kernel

def vacant : State := ⟨fun _ => none, [], []⟩

theorem empty_vacant : Empty workerStore vacant := ⟨rfl, rfl, fun _ _ => rfl⟩

def plainText : Text := "text/plain".toList

def markdown : Text := "text/markdown".toList

/-- The reference of the letter `a`. -/
def letterRef : ArtifactRef := workerStore.refOf plainText [97]

/-- The calls of a put of one letter. -/
def putCalls (uuid : HexText 32) (mediaType : Text) : List Call :=
  [.start uuid mediaType 1, .chunk uuid [97], .upload uuid none, .copy uuid none]

def timeout : Fault := .transport "ReadTimeoutError"

/-- The letter is put, and put again by a call that fails at its end. -/
def carefulCalls : List Call :=
  putCalls firstUuid plainText ++ [.settle firstUuid none] ++
    putCalls secondUuid plainText ++
      [.settle secondUuid (some timeout), .cleanUp secondUuid none]

theorem contentAddressed_letter :
    ∃ history s, Run workerStore (Careful workerStore) history s ∧
      (letterRef, [97]) ∈ kept workerStore history ∧
        ContentAddressed workerStore (Careful workerStore) history s := by
  have hfacts : (replay workerStore (fun h s c => decide (Careful workerStore h s c)) carefulCalls
      [] vacant).map (fun r => decide ((uuids r.1).Nodup ∧ CollisionFree workerStore r.1 ∧
        (letterRef, [97]) ∈ kept workerStore r.1)) = some true := by decide +kernel
  obtain ⟨⟨history, s⟩, hreplay, hfacts⟩ := Option.map_eq_some_iff.mp hfacts
  obtain ⟨hfresh, hfree, hkept⟩ := of_decide_eq_true hfacts
  have hrun : Run workerStore (Careful workerStore) history s :=
    Run.replay (fun _ _ _ => of_decide_eq_true) (.initial empty_vacant) hreplay
  exact ⟨history, s, hrun, hkept, contentAddressed_of_careful hrun hfresh hfree⟩

/-- Any steps. -/
def Anything (_ : History) (_ : State) (_ : Call) : Prop := True

def reached (calls : List Call) : Option (History × State) :=
  replay workerStore (fun _ _ _ => true) calls [] vacant

theorem run_of_reached {calls : List Call} (h : reached calls = some (history, s)) :
    Run workerStore Anything history s :=
  Run.replay (fun _ _ _ _ => trivial) (.initial empty_vacant) h

/-- The letter is put as plain text, then as Markdown. -/
def rewritingCalls : List Call :=
  putCalls firstUuid plainText ++ [.settle firstUuid none] ++
    putCalls secondUuid markdown ++ [.settle secondUuid none]

/-- The letter is put, but the temporary object cannot be deleted. -/
def raisingCalls : List Call :=
  putCalls firstUuid plainText ++
    [.settle firstUuid (some timeout), .cleanUp firstUuid none]

/-- How far its put is when it has uploaded. -/
def uploadedHistory : History :=
  [(.upload firstUuid none, .waiting), (.chunk firstUuid [97], .waiting),
    (.start firstUuid plainText 1, .waiting)]

def raisedHistory : History :=
  (.cleanUp firstUuid none, .put (.error (storageError "put" timeout))) ::
    (.settle firstUuid (some timeout), .waiting) ::
      (.copy firstUuid none, .copied true) :: uploadedHistory

/-- The copy is the first to make the letter readable. -/
theorem copy_adds : ∃ s₀ s₁, Run workerStore Anything uploadedHistory s₀ ∧
    step workerStore s₀ (.copy firstUuid none) = some (.copied true, s₁) ∧
      Reads workerStore s₁ letterRef [97] ∧ ¬ Reads workerStore s₀ letterRef [97] := by
  have hfacts : (reached ((putCalls firstUuid plainText).take 3)).bind (fun r =>
      (step workerStore r.2 (.copy firstUuid none)).map fun q =>
        decide (r.1 = uploadedHistory ∧ q.1 = .copied true ∧
          workerStore.get letterRef none true q.2 = .ok [97] ∧
            workerStore.get letterRef none true r.2 ≠ .ok [97])) = some true := by
    decide +kernel
  obtain ⟨⟨history, s₀⟩, hreached, hstep⟩ := Option.bind_eq_some_iff.mp hfacts
  obtain ⟨⟨outcome, s₁⟩, hstep, hfacts⟩ := Option.map_eq_some_iff.mp hstep
  obtain ⟨rfl, rfl, hreads, hnot⟩ := of_decide_eq_true hfacts
  exact ⟨s₀, s₁, run_of_reached hreached, hstep, hreads, hnot⟩

/-- The second put makes the first reference fail `verify`; and the put that raises has
added the letter. -/
theorem metadata_rewritten :
    (∃ history s, reached rewritingCalls = some (history, s) ∧ (uuids history).Nodup ∧
      CollisionFree workerStore history ∧ ¬ ContentAddressed workerStore Anything history s) ∧
    ∃ history s, reached raisingCalls = some (history, s) ∧ (uuids history).Nodup ∧
      CollisionFree workerStore history ∧ ¬ ContentAddressed workerStore Anything history s := by
  constructor
  · have hfacts : (reached rewritingCalls).map (fun r => decide ((uuids r.1).Nodup ∧
        CollisionFree workerStore r.1 ∧ (letterRef, [97]) ∈ kept workerStore r.1 ∧
          workerStore.verify letterRef none r.2 = .ok false)) = some true := by decide +kernel
    obtain ⟨⟨history, s⟩, hreached, hfacts⟩ := Option.map_eq_some_iff.mp hfacts
    obtain ⟨hfresh, hfree, hkept, hverify⟩ := of_decide_eq_true hfacts
    refine ⟨history, s, hreached, hfresh, hfree, ?_⟩
    intro hmap
    have htrue := (hmap.kept _ hkept).1
    rw [hverify] at htrue
    cases htrue
  · have hfacts : (reached raisingCalls).map (fun r => decide (r.1 = raisedHistory ∧
        (uuids r.1).Nodup ∧ CollisionFree workerStore r.1)) = some true := by decide +kernel
    obtain ⟨⟨history, s⟩, hreached, hfacts⟩ := Option.map_eq_some_iff.mp hfacts
    obtain ⟨rfl, hfresh, hfree⟩ := of_decide_eq_true hfacts
    refine ⟨raisedHistory, s, hreached, hfresh, hfree, ?_⟩
    intro hmap
    obtain ⟨s₀, s₁, hrun, hstep, hreads, hnot⟩ := copy_adds
    apply hnot
    refine hmap.raised [(.cleanUp firstUuid none, .put (.error (storageError "put" timeout))),
      (.settle firstUuid (some timeout), .waiting)] uploadedHistory firstUuid none
        true rfl ⟨_, _, List.mem_cons_self, rfl⟩ s₀ s₁ hrun hstep letterRef [97] hreads

end CrawlTrove.Artifacts.S3
