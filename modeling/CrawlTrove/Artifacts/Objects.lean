import CrawlTrove.Artifacts.S3

/-!
# What the objects of the bucket are

Under the key of a digest lie contents with that digest, and metadata of these
contents with the media type of the last put that has copied them. A reference keeps
passing `verify` as long as no put copies the same contents with another media type
over it, and a put that raises has added nothing unless its copy was the first.
-/

namespace CrawlTrove.Artifacts.S3

open Web (Text)
open S3ArtifactStore

/-! ## What is claimed -/

/-- The put the call is a step of. -/
def Call.uuid? : Call → Option (HexText 32)
  | .start uuid _ _ => some uuid
  | .chunk uuid _ => some uuid
  | .raise uuid => some uuid
  | .upload uuid _ => some uuid
  | .copy uuid _ => some uuid
  | .settle uuid _ => some uuid
  | .cleanUp uuid _ => some uuid
  | _ => none

/-- The names of the puts that were called. -/
def uuids : History → List (HexText 32)
  | [] => []
  | (.start uuid _ _, _) :: history => uuid :: uuids history
  | _ :: history => uuids history

/-- The bytes a put was given since it was called. -/
def sent (uuid : HexText 32) : History → Bytes
  | [] => []
  | (.start u _ _, _) :: history => if u = uuid then [] else sent uuid history
  | (.chunk u bytes, _) :: history =>
      if u = uuid then sent uuid history ++ bytes else sent uuid history
  | _ :: history => sent uuid history

/-- The media type a put was called with. -/
def mediaTypeOf (uuid : HexText 32) : History → Option Text
  | [] => none
  | (.start u mediaType _, _) :: history =>
      if u = uuid then some mediaType else mediaTypeOf uuid history
  | _ :: history => mediaTypeOf uuid history

/-- The contents that were copied to the key of their digest. -/
def contents : History → List Bytes
  | [] => []
  | (.copy uuid _, .copied _) :: history => sent uuid history :: contents history
  | _ :: history => contents history

/-- No two of them have one digest. -/
def CollisionFree (store : S3ArtifactStore) (history : History) : Prop :=
  ∀ a ∈ contents history, ∀ b ∈ contents history, store.hexdigest a = store.hexdigest b → a = b

instance (store : S3ArtifactStore) (history : History) : Decidable (CollisionFree store history) :=
  inferInstanceAs (Decidable (∀ a ∈ contents history, ∀ b ∈ contents history, _))

/-- The references that puts have returned, with what they were given, and whose digest
was not deleted since. -/
def kept (store : S3ArtifactStore) : History → List (ArtifactRef × Bytes)
  | [] => []
  | (.settle uuid _, .put (.ok ref)) :: history => (ref, sent uuid history) :: kept store history
  | (.delete ref none, _) :: history =>
      match store.keyForRef ref with
      | .ok _ => (kept store history).filter fun k => k.1.sha256 ≠ ref.sha256
      | .error _ => kept store history
  | _ :: history => kept store history

/-- The media type of the last put that has copied to the key of the digest, if no delete
of this key came since. -/
def lastCopied (store : S3ArtifactStore) (digest : HexText 64) : History → Option Text
  | [] => none
  | (.copy uuid _, .copied _) :: history =>
      if store.hexdigest (sent uuid history) = digest then mediaTypeOf uuid history
      else lastCopied store digest history
  | (.delete ref none, _) :: history =>
      match store.keyForRef ref with
      | .ok _ => if ref.sha256 = digest.val then none else lastCopied store digest history
      | .error _ => lastCopied store digest history
  | _ :: history => lastCopied store digest history

/-- `get` returns these bytes when no call fails. -/
def Reads (store : S3ArtifactStore) (s : State) (ref : ArtifactRef) (data : Bytes) : Prop :=
  store.get ref none true s = .ok data

/-- The copy of a put does not give other metadata to a reference that is kept; between it
and the return of the put nobody deletes its key, and who copies to it last has the same
media type; and the call behind a copy that has added an object does not fail. -/
def Careful (store : S3ArtifactStore) (history : History) (s : State) : Call → Prop
  | .copy uuid none => ∀ put ∈ s.put? uuid, ∀ k ∈ kept store history,
      k.1.sha256 = (store.hexdigest put.written).val → k.1.mediaType = put.mediaType
  | .settle uuid none =>
      lastCopied store (store.hexdigest (sent uuid history)) history = mediaTypeOf uuid history
  | .settle uuid (some _) => (.copy uuid none, .copied true) ∉ history
  | _ => True

instance (store : S3ArtifactStore) (history : History) (s : State) :
    (call : Call) → Decidable (Careful store history s call)
  | .copy uuid none => inferInstanceAs (Decidable (∀ put ∈ s.put? uuid,
      ∀ k ∈ kept store history,
        k.1.sha256 = (store.hexdigest put.written).val → k.1.mediaType = put.mediaType))
  | .settle uuid none => inferInstanceAs (Decidable
      (lastCopied store (store.hexdigest (sent uuid history)) history = mediaTypeOf uuid history))
  | .settle uuid (some _) =>
      inferInstanceAs (Decidable ((.copy uuid none, .copied true) ∉ history))
  | .copy _ (some _) => .isTrue trivial
  | .start _ _ _ => .isTrue trivial
  | .chunk _ _ => .isTrue trivial
  | .raise _ => .isTrue trivial
  | .upload _ _ => .isTrue trivial
  | .cleanUp _ _ => .isTrue trivial
  | .get _ _ _ => .isTrue trivial
  | .delete _ _ => .isTrue trivial
  | .existence _ _ => .isTrue trivial
  | .verify _ _ => .isTrue trivial

/-- The store is a map from digests to contents below the directory of its worker. -/
structure ContentAddressed (store : S3ArtifactStore)
    (allowed : History → State → Call → Prop) (history : History) (s : State) : Prop where
  /-- A reference that is kept passes `verify`, and `get` returns what was put. -/
  kept : ∀ k ∈ kept store history,
    store.verify k.1 none s = .ok true ∧ Reads store s k.1 k.2
  /-- A step of a put other than the copy changes nothing that can be read. -/
  unchanged : ∀ call outcome s', step store s call = some (outcome, s') → call.uuid? ≠ none →
    (∀ added, outcome ≠ .copied added) →
      ∀ ref data, Reads store s' ref data ↔ Reads store s ref data
  /-- The copy of a put that raises has added nothing that can be read. -/
  raised : ∀ after before uuid fault added,
    history = after ++ (.copy uuid fault, .copied added) :: before →
      (∃ call e, (call, .put (.error e)) ∈ after ∧ call.uuid? = some uuid) →
        ∀ s₀ s₁, Run store allowed before s₀ →
          step store s₀ (.copy uuid fault) = some (.copied added, s₁) →
            ∀ ref data, Reads store s₁ ref data → Reads store s₀ ref data
  /-- The keys that were named are those of the worker. -/
  confined : ∀ key ∈ s.touched, store.directory <+: key

/-! ## Keys -/

section Keys

variable {store : S3ArtifactStore}

theorem directory_keyOf (sha256 : Text) : store.directory <+: store.keyOf sha256 := by
  unfold keyOf
  rw [List.append_assoc, List.append_assoc]
  exact List.prefix_append ..

theorem directory_temporaryKey (uuid : HexText 32) :
    store.directory <+: store.temporaryKey uuid := by
  unfold temporaryKey
  rw [List.append_assoc]
  exact List.prefix_append ..

theorem keyOf_injective {a b : Text} (hlength : a.length = b.length)
    (h : store.keyOf a = store.keyOf b) : a = b := by
  have htail := List.append_inj_right' h (by simp [hlength])
  exact (List.cons.inj htail).2

theorem keyOf_hex_injective {a b : HexText 64} (h : store.keyOf a.val = store.keyOf b.val) :
    a = b :=
  Subtype.ext (keyOf_injective (a.property.1.trans b.property.1.symm) h)

theorem temporaryKey_injective {a b : HexText 32}
    (h : store.temporaryKey a = store.temporaryKey b) : a = b :=
  Subtype.ext (List.append_cancel_left h)

theorem temporaryKey_ne_keyOf (uuid : HexText 32) (sha256 : Text) :
    store.temporaryKey uuid ≠ store.keyOf sha256 := by
  intro h
  simp [temporaryKey, keyOf] at h

theorem keyForRef_eq_ok {ref : ArtifactRef} {key : Text} :
    store.keyForRef ref = .ok key ↔
      (∃ digest : HexText 64, digest.val = ref.sha256) ∧
        ref.uri = store.uriOf (store.keyOf ref.sha256) ∧ key = store.keyOf ref.sha256 := by
  unfold keyForRef keyForSha256
  by_cases hhex : ref.sha256.length = 64 ∧ ref.sha256.all isHex = true
  · have hdigest : ∃ digest : HexText 64, digest.val = ref.sha256 :=
      ⟨⟨ref.sha256, hhex.1, List.all_eq_true.mp hhex.2⟩, rfl⟩
    rw [if_pos hhex]
    by_cases huri : ref.uri = store.uriOf (store.keyOf ref.sha256)
    · simp only [huri, if_true, Except.ok.injEq, hdigest, true_and]
      exact eq_comm
    · simp [huri]
  · rw [if_neg hhex]
    simp only [reduceCtorEq, false_iff, not_and]
    rintro ⟨⟨text, hlength, hall⟩, rfl⟩
    exact absurd ⟨hlength, List.all_eq_true.mpr hall⟩ hhex

theorem keyForRef_refOf (mediaType : Text) (data : Bytes) :
    store.keyForRef (store.refOf mediaType data) =
      .ok (store.keyOf (store.hexdigest data).val) :=
  keyForRef_eq_ok.mpr ⟨⟨store.hexdigest data, rfl⟩, rfl, rfl⟩

theorem reads_iff {s : State} {ref : ArtifactRef} {data : Bytes} :
    Reads store s ref data ↔ ∃ key object, store.keyForRef ref = .ok key ∧
      s.objects key = some object ∧ object.body = data ∧ (data.length : ℤ) = ref.size ∧
        (store.hexdigest data).val = ref.sha256 := by
  unfold Reads S3ArtifactStore.get
  cases hkey : store.keyForRef ref with
  | error e => simp
  | ok key =>
      cases hobject : s.objects key with
      | none =>
          have hmissing : noSuchKey.isNotFound = true := by decide
          simp [hobject, hmissing]
      | some object =>
          simp only [hobject, Option.orElse_none, Option.isNone_some, Bool.false_eq_true,
            if_false, Option.map_some, Option.getD_some, not_true_eq_false, Except.ok.injEq,
            exists_and_left, exists_eq_left', Option.some.injEq]
          split
          · rename_i hne
            simp only [reduceCtorEq, false_iff, not_and]
            rintro rfl hsize hdigest
            exact hne.elim (fun h => h hsize) fun h => h hdigest
          · rename_i heq
            obtain ⟨hsize, hdigest⟩ := not_or.mp heq
            rw [not_not] at hsize hdigest
            rw [Except.ok.injEq]
            constructor
            · rintro rfl
              exact ⟨rfl, hsize, hdigest⟩
            · rintro ⟨rfl, -, -⟩
              rfl

/-- What can be read depends on the bodies under the keys of the digests only. -/
theorem Reads.mono {s s' : State} {ref : ArtifactRef} {data : Bytes} (h : Reads store s ref data)
    (hbody : ∀ digest : HexText 64, ∀ object, s.objects (store.keyOf digest.val) = some object →
      ∃ object', s'.objects (store.keyOf digest.val) = some object' ∧
        object'.body = object.body) : Reads store s' ref data := by
  obtain ⟨key, object, hkey, hobject, hdata, hrest⟩ := reads_iff.mp h
  obtain ⟨⟨digest, hdigest⟩, -, rfl⟩ := keyForRef_eq_ok.mp hkey
  rw [← hdigest] at hobject
  obtain ⟨object', hobject', hsame⟩ := hbody digest object hobject
  rw [hdigest] at hobject'
  exact reads_iff.mpr ⟨_, object', hkey, hobject', hsame.trans hdata, hrest⟩

theorem verify_eq_true {s : State} {ref : ArtifactRef} {key : Text} {object : Object}
    (hkey : store.keyForRef ref = .ok key) (hobject : s.objects key = some object)
    (hsize : (object.body.length : ℤ) = ref.size) (hmetadata : object.metadata = metadata ref) :
    store.verify ref none s = .ok true := by
  simp [verify, head, hkey, hobject, hsize, hmetadata]

end Keys

variable {store : S3ArtifactStore} {allowed : History → State → Call → Prop} {history : History}
  {s s' : State} {call : Call} {outcome : Outcome} {uuid : HexText 32}

/-! ## The steps of a put -/

namespace State

theorem uuid_of_put? {put : Put} (h : s.put? uuid = some put) : put.uuid = uuid := by
  simpa using List.find?_some h

theorem put?_update {f : Put → Put} (hf : ∀ p, (f p).uuid = p.uuid) (u : HexText 32) :
    (s.update uuid f).put? u = (s.put? u).map fun p => if u = uuid then f p else p := by
  unfold put? update
  have hfind : ((fun p : Put => decide (p.uuid = u)) ∘ fun p =>
      if p.uuid = uuid then f p else p) = fun p => decide (p.uuid = u) := by
    funext p
    by_cases hp : p.uuid = uuid <;> simp [hp, hf]
  rw [List.find?_map, hfind]
  cases hput : s.pending.find? (fun p => decide (p.uuid = u)) with
  | none => rfl
  | some put =>
      have huuid : put.uuid = u := by simpa using List.find?_some hput
      simp [huuid]

theorem put?_update_self {f : Put → Put} (hf : ∀ p, (f p).uuid = p.uuid) {put : Put}
    (h : s.put? uuid = some put) : (s.update uuid f).put? uuid = some (f put) := by
  rw [put?_update hf, h, Option.map_some, if_pos rfl]

theorem put?_setPhase_self (phase : Phase) {put : Put} (h : s.put? uuid = some put) :
    (s.setPhase uuid phase).put? uuid = some { put with phase } :=
  put?_update_self (f := fun p => { p with phase }) (fun _ => rfl) h

theorem put?_close (u : HexText 32) :
    (s.close uuid).put? u = if u = uuid then none else s.put? u := by
  unfold put? close
  rw [List.find?_filter]
  split
  · rename_i h
    apply List.find?_eq_none.mpr
    intro put _
    simp [h]
  · rename_i h
    congr 1
    funext put
    by_cases hput : put.uuid = u
    · simp [hput, h]
    · simp [hput]

end State

/-- A step of a put leaves the other puts and the objects of the digests alone, and names
keys of the worker. -/
structure Frame (store : S3ArtifactStore) (uuid : HexText 32) (s s' : State) : Prop where
  objects : ∀ key, key ≠ store.temporaryKey uuid → s'.objects key = s.objects key
  puts : ∀ u, u ≠ uuid → s'.put? u = s.put? u
  touched : ∀ key ∈ s'.touched, key ∈ s.touched ∨ store.directory <+: key

theorem Frame.refl (uuid : HexText 32) (s : State) : Frame store uuid s s :=
  ⟨fun _ _ => rfl, fun _ _ => rfl, fun _ h => Or.inl h⟩

theorem Frame.trans {s₁ s₂ s₃ : State} (h : Frame store uuid s₁ s₂)
    (h' : Frame store uuid s₂ s₃) : Frame store uuid s₁ s₃ where
  objects key hkey := (h'.objects key hkey).trans (h.objects key hkey)
  puts u hu := (h'.puts u hu).trans (h.puts u hu)
  touched key hkey := (h'.touched key hkey).elim (h.touched key) Or.inr

theorem frame_touch (uuid : HexText 32) (s : State) {key : Text} (h : store.directory <+: key) :
    Frame store uuid s (s.touch key) where
  objects _ _ := rfl
  puts _ _ := rfl
  touched k hk := by
    rcases List.mem_cons.mp hk with rfl | hk
    · exact Or.inr h
    · exact Or.inl hk

theorem frame_write (uuid : HexText 32) (s : State) (object : Option Object) :
    Frame store uuid s (s.write (store.temporaryKey uuid) object) where
  objects _ hkey := Function.update_of_ne hkey ..
  puts _ _ := rfl
  touched _ hk := Or.inl hk

theorem frame_update (s : State) {f : Put → Put} (hf : ∀ p, (f p).uuid = p.uuid) :
    Frame store uuid s (s.update uuid f) where
  objects _ _ := rfl
  puts u hu := by
    rw [State.put?_update hf]
    simp [hu]
  touched _ hk := Or.inl hk

theorem frame_close (uuid : HexText 32) (s : State) : Frame store uuid s (s.close uuid) where
  objects _ _ := rfl
  puts u hu := by rw [State.put?_close, if_neg hu]
  touched _ hk := Or.inl hk

theorem frame_start (put : Put) (s : State) : Frame store put.uuid s (start put s).2 := by
  unfold start
  split
  · exact Frame.refl ..
  · refine ⟨fun _ _ => rfl, ?_, fun _ h => Or.inl h⟩
    intro u hu
    exact List.find?_cons_of_neg (by simpa using hu.symm)

theorem frame_chunk (put : Put) (bytes : Bytes) (s : State) :
    Frame store put.uuid s (chunk put bytes s).2 := by
  unfold chunk
  split
  · exact frame_close ..
  · exact frame_update s fun _ => rfl

theorem frame_upload (put : Put) (fault : Option Fault) (s : State) :
    Frame store put.uuid s (store.upload put fault s) := by
  have htemporary : store.directory <+: store.temporaryKey put.uuid :=
    directory_temporaryKey put.uuid
  have htouch := frame_touch put.uuid s htemporary
  unfold upload
  cases fault with
  | some fault => exact htouch.trans (frame_update _ fun _ => rfl)
  | none => exact (htouch.trans (frame_write ..)).trans (frame_update _ fun _ => rfl)

theorem frame_settle (put : Put) (fault : Option Fault) (s : State) :
    Frame store put.uuid s (store.settle put fault s).2 := by
  have htemporary : store.directory <+: store.temporaryKey put.uuid :=
    directory_temporaryKey put.uuid
  have htouch := frame_touch put.uuid s htemporary
  unfold settle
  cases fault with
  | some fault => exact htouch.trans (frame_update _ fun _ => rfl)
  | none => exact (htouch.trans (frame_write ..)).trans (frame_close ..)

theorem frame_cleanUp (put : Put) (fault : Option Fault) (s : State) :
    Frame store put.uuid s (store.cleanUp put fault s) := by
  have htemporary : store.directory <+: store.temporaryKey put.uuid :=
    directory_temporaryKey put.uuid
  have htouch := frame_touch put.uuid s htemporary
  unfold cleanUp
  cases fault with
  | some fault => exact htouch.trans (frame_close ..)
  | none => exact (htouch.trans (frame_write ..)).trans (frame_close ..)

/-- A copy that does not succeed. -/
theorem copy_eq_none {put : Put} {fault : Option Fault}
    (h : (store.copy put fault s).1 = none) :
    ∃ error, (store.copy put fault s).2 =
      ((s.touch (store.temporaryKey put.uuid)).touch
        (store.keyOf (store.hexdigest put.written).val)).setPhase put.uuid (.failed error) := by
  unfold copy at h ⊢
  dsimp only at h ⊢
  split at h
  · exact ⟨_, rfl⟩
  · exact ⟨_, rfl⟩
  · cases h

theorem frame_copy {put : Put} {fault : Option Fault} (h : (store.copy put fault s).1 = none) :
    Frame store put.uuid s (store.copy put fault s).2 := by
  obtain ⟨error, hstate⟩ := copy_eq_none h
  rw [hstate]
  exact ((frame_touch put.uuid s (directory_temporaryKey put.uuid)).trans
    (frame_touch put.uuid _ (directory_keyOf _))).trans (frame_update _ fun _ => rfl)

theorem at?_eq_some {phase : Phase} {put : Put} (h : s.at? uuid phase = some put) :
    s.put? uuid = some put ∧ put.phase = phase ∧ put.uuid = uuid := by
  obtain ⟨hput, hphase⟩ := Option.filter_eq_some_iff.mp h
  exact ⟨hput, of_decide_eq_true hphase, State.uuid_of_put? hput⟩

/-- A put that has failed ends with its error. -/
theorem step_cleanUp {fault : Option Fault}
    (h : step store s (.cleanUp uuid fault) = some (outcome, s')) :
    ∃ put error, s.put? uuid = some put ∧ put.phase = .failed error ∧ put.uuid = uuid ∧
      outcome = .put (.error error) ∧ s' = store.cleanUp put fault s := by
  obtain ⟨put, hput, h⟩ := Option.bind_eq_some_iff.mp h
  obtain ⟨error, herror, h⟩ := Option.map_eq_some_iff.mp h
  obtain ⟨rfl, rfl⟩ := Prod.mk.inj h
  refine ⟨put, error, hput, ?_, State.uuid_of_put? hput, rfl, rfl⟩
  cases hphase : put.phase <;> simp_all [Phase.error?]

/-- Every step of a put but a copy that succeeds. -/
theorem frame_of_step (hstep : step store s call = some (outcome, s'))
    (hcall : call.uuid? = some uuid) (hcopied : ∀ added, outcome ≠ .copied added) :
    Frame store uuid s s' := by
  cases call with
  | start u mediaType expectedMaxBytes =>
      obtain rfl := Option.some.inj hcall
      obtain ⟨-, rfl⟩ := Prod.mk.inj (Option.some.inj hstep)
      exact frame_start ⟨u, mediaType, expectedMaxBytes, [], .reading⟩ s
  | chunk u bytes =>
      obtain rfl := Option.some.inj hcall
      obtain ⟨put, hput, hresult⟩ := Option.map_eq_some_iff.mp hstep
      obtain ⟨-, -, rfl⟩ := at?_eq_some hput
      obtain ⟨-, rfl⟩ := Prod.mk.inj hresult
      exact frame_chunk put bytes s
  | raise u =>
      obtain rfl := Option.some.inj hcall
      obtain ⟨put, hput, hresult⟩ := Option.map_eq_some_iff.mp hstep
      obtain ⟨-, rfl⟩ := Prod.mk.inj hresult
      exact frame_close u s
  | upload u fault =>
      obtain rfl := Option.some.inj hcall
      obtain ⟨put, hput, hresult⟩ := Option.map_eq_some_iff.mp hstep
      obtain ⟨-, -, rfl⟩ := at?_eq_some hput
      obtain ⟨-, rfl⟩ := Prod.mk.inj hresult
      exact frame_upload put fault s
  | copy u fault =>
      obtain rfl := Option.some.inj hcall
      obtain ⟨put, hput, hresult⟩ := Option.map_eq_some_iff.mp hstep
      obtain ⟨-, -, rfl⟩ := at?_eq_some hput
      have houtcome : .ofCopy (store.copy put fault s).1 = outcome := congrArg Prod.fst hresult
      have hstate : (store.copy put fault s).2 = s' := congrArg Prod.snd hresult
      rw [← hstate]
      apply frame_copy
      cases hadded : (store.copy put fault s).1 with
      | none => rfl
      | some added =>
          rw [hadded] at houtcome
          exact absurd houtcome.symm (hcopied added)
  | settle u fault =>
      obtain rfl := Option.some.inj hcall
      obtain ⟨put, hput, hresult⟩ := Option.map_eq_some_iff.mp hstep
      obtain ⟨-, -, rfl⟩ := at?_eq_some hput
      obtain ⟨-, rfl⟩ := Prod.mk.inj hresult
      exact frame_settle put fault s
  | cleanUp u fault =>
      obtain rfl := Option.some.inj hcall
      obtain ⟨put, error, -, -, rfl, -, rfl⟩ := step_cleanUp hstep
      exact frame_cleanUp put fault s
  | get ref fault complete => cases hcall
  | delete ref fault => cases hcall
  | existence ref fault => cases hcall
  | verify ref fault => cases hcall

/-- A copy that succeeds. -/
theorem step_copied {fault : Option Fault} {added : Bool}
    (h : step store s (.copy uuid fault) = some (.copied added, s')) :
    fault = none ∧ ∃ put object, s.put? uuid = some put ∧ put.phase = .uploaded ∧
      put.uuid = uuid ∧ s.objects (store.temporaryKey uuid) = some object ∧
        added = (s.objects (store.keyOf (store.hexdigest put.written).val)).isNone ∧
        s'.objects = Function.update s.objects
          (store.keyOf (store.hexdigest put.written).val) (some object) ∧
        (∀ u, s'.put? u = (s.put? u).map fun p =>
          if u = uuid then { p with phase := .copied } else p) ∧
        ∀ key ∈ s'.touched, key ∈ s.touched ∨ store.directory <+: key := by
  obtain ⟨put, hput, hresult⟩ := Option.map_eq_some_iff.mp h
  obtain ⟨hput, hphase, rfl⟩ := at?_eq_some hput
  have houtcome : .ofCopy (store.copy put fault s).1 = Outcome.copied added :=
    congrArg Prod.fst hresult
  have hstate : (store.copy put fault s).2 = s' := congrArg Prod.snd hresult
  rw [← hstate]
  have htemporary : store.directory <+: store.temporaryKey put.uuid :=
    directory_temporaryKey put.uuid
  have hkey : store.directory <+: store.keyOf (store.hexdigest put.written).val :=
    directory_keyOf (store.hexdigest put.written).val
  have htouch := (frame_touch put.uuid s htemporary).trans (frame_touch put.uuid _ hkey)
  unfold copy at houtcome ⊢
  dsimp only at houtcome ⊢
  split at houtcome
  · cases houtcome
  · cases houtcome
  · rename_i object hobject
    refine ⟨rfl, put, object, hput, hphase, rfl, hobject, ?_, rfl, ?_, htouch.touched⟩
    · exact (Outcome.copied.inj houtcome).symm
    · intro u
      exact State.put?_update (s := s) (f := fun p => { p with phase := .copied })
        (fun _ => rfl) u

theorem outcome_ne_copied (hstep : step store s call = some (outcome, s'))
    (hcall : call.uuid? = none) (added : Bool) : outcome ≠ .copied added := by
  have houtcome := congrArg (Option.map Prod.fst) hstep
  cases call with
  | get ref fault complete => exact fun h => by cases houtcome.trans (congrArg some h)
  | delete ref fault => exact fun h => by cases houtcome.trans (congrArg some h)
  | existence ref fault => exact fun h => by cases houtcome.trans (congrArg some h)
  | verify ref fault => exact fun h => by cases houtcome.trans (congrArg some h)
  | start => cases hcall
  | chunk => cases hcall
  | raise => cases hcall
  | upload => cases hcall
  | copy => cases hcall
  | settle => cases hcall
  | cleanUp => cases hcall

/-- What the other operations do. -/
theorem step_other (hstep : step store s call = some (outcome, s')) (hcall : call.uuid? = none) :
    s'.pending = s.pending ∧ (∀ key ∈ s'.touched, key ∈ s.touched ∨ store.directory <+: key) ∧
      (s'.objects = s.objects ∨ ∃ ref key, call = .delete ref none ∧
        store.keyForRef ref = .ok key ∧ s'.objects = Function.update s.objects key none) ∧
      ∀ ref key, call = .delete ref none → store.keyForRef ref = .ok key →
        s'.objects = Function.update s.objects key none := by
  have htouchRef : ∀ ref : ArtifactRef, ∀ key ∈ (store.touchRef ref s).touched,
      key ∈ s.touched ∨ store.directory <+: key := by
    intro ref key hkey
    unfold touchRef at hkey
    split at hkey
    · exact Or.inl hkey
    · rename_i k hk
      obtain ⟨-, -, rfl⟩ := keyForRef_eq_ok.mp hk
      rcases List.mem_cons.mp hkey with rfl | hkey
      · exact Or.inr (directory_keyOf _)
      · exact Or.inl hkey
  have hsame : ∀ ref : ArtifactRef, (store.touchRef ref s).pending = s.pending ∧
      (store.touchRef ref s).objects = s.objects := by
    intro ref
    unfold touchRef
    split <;> exact ⟨rfl, rfl⟩
  cases call with
  | get ref fault complete =>
      obtain ⟨-, rfl⟩ := Prod.mk.inj (Option.some.inj hstep)
      exact ⟨(hsame ref).1, htouchRef ref, Or.inl (hsame ref).2, by simp⟩
  | existence ref fault =>
      obtain ⟨-, rfl⟩ := Prod.mk.inj (Option.some.inj hstep)
      exact ⟨(hsame ref).1, htouchRef ref, Or.inl (hsame ref).2, by simp⟩
  | verify ref fault =>
      obtain ⟨-, rfl⟩ := Prod.mk.inj (Option.some.inj hstep)
      exact ⟨(hsame ref).1, htouchRef ref, Or.inl (hsame ref).2, by simp⟩
  | delete ref fault =>
      have hstate : (store.delete ref fault s).2 = s' :=
        congrArg Prod.snd (Option.some.inj hstep)
      rw [← hstate]
      unfold delete
      cases hkey : store.keyForRef ref with
      | error e =>
          refine ⟨rfl, fun _ h => Or.inl h, Or.inl rfl, ?_⟩
          rintro r key heq hr
          obtain ⟨rfl, -⟩ := Call.delete.inj heq
          rw [hkey] at hr
          cases hr
      | ok key =>
          obtain ⟨-, -, rfl⟩ := keyForRef_eq_ok.mp hkey
          have htouched : ∀ k ∈ store.keyOf ref.sha256 :: s.touched,
              k ∈ s.touched ∨ store.directory <+: k := by
            intro k hk
            rcases List.mem_cons.mp hk with rfl | hk
            · exact Or.inr (directory_keyOf _)
            · exact Or.inl hk
          cases fault with
          | some fault => exact ⟨rfl, htouched, Or.inl rfl, by simp⟩
          | none =>
              refine ⟨rfl, htouched, Or.inr ⟨ref, _, rfl, hkey, rfl⟩, ?_⟩
              rintro r key heq hr
              obtain ⟨rfl, -⟩ := Call.delete.inj heq
              rw [hkey] at hr
              cases hr
              rfl
  | start => cases hcall
  | chunk => cases hcall
  | raise => cases hcall
  | upload => cases hcall
  | copy => cases hcall
  | settle => cases hcall
  | cleanUp => cases hcall

end CrawlTrove.Artifacts.S3
