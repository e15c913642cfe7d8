import CrawlTrove.Artifacts.Filesystem

/-!
# What a call does to the files

The path of an artifact has the digest for its name if the digest is a file name.
Up to its end a put changes its own file only; at its end the file is gone, and
if the put returns, the file of the digest is there.
-/

namespace CrawlTrove.Artifacts

open Web (Text)

/-! ## Paths of the store -/

namespace FilesystemArtifactStore

variable {self : FilesystemArtifactStore}

theorem isPart_sha256 : IsPart "sha256".toList := by decide

theorem isPart_tmp : IsPart "tmp".toList := by decide

theorem isPart_temp (uuid : HexText 32) : IsPart (uuid.val ++ ".tmp".toList) := by
  obtain ⟨hne, -, hslash⟩ := HexText.isPart (by decide) uuid
  refine ⟨by simp [hne], ?_, ?_⟩
  · intro h
    have hlength := congrArg List.length h
    simp [uuid.property.1] at hlength
  · intro hmem
    rcases List.mem_append.mp hmem with h | h
    · exact hslash h
    · exact absurd h (by decide)

/-- The path a digest names, if it is the name of a file. -/
theorem destinationIn_of_isPart (root : PurePath) {sha256 : Text} (h : IsPart sha256) :
    (destinationIn root sha256).anchor = root.anchor ∧
      (destinationIn root sha256).parts =
        root.parts ++ ["sha256".toList, sha256.take 2, sha256] := by
  have htake := PurePath.isPart_take_two h
  unfold destinationIn
  rw [PurePath.anchor_join h, PurePath.anchor_join htake, PurePath.anchor_join isPart_sha256,
    PurePath.parts_join h, PurePath.parts_join htake, PurePath.parts_join isPart_sha256]
  exact ⟨rfl, by simp⟩

theorem destination_of_isPart {sha256 : Text} (h : IsPart sha256) :
    (self.destination sha256).anchor = self.root.anchor ∧
      (self.destination sha256).parts =
        self.root.parts ++ ["sha256".toList, sha256.take 2, sha256] :=
  destinationIn_of_isPart self.root h

theorem tempPath_eq (uuid : HexText 32) :
    (self.tempPath uuid).anchor = self.root.anchor ∧
      (self.tempPath uuid).parts =
        self.root.parts ++ ["tmp".toList, uuid.val ++ ".tmp".toList] := by
  have htemp := isPart_temp uuid
  unfold tempPath tmpDir
  rw [PurePath.anchor_join htemp, PurePath.anchor_join isPart_tmp, PurePath.parts_join htemp,
    PurePath.parts_join isPart_tmp]
  exact ⟨rfl, by simp⟩

theorem parts_destination {sha256 : Text} (h : IsPart sha256) :
    (self.destination sha256).parts =
      self.root.parts ++ ["sha256".toList, sha256.take 2, sha256] :=
  (destination_of_isPart h).2

theorem destination_injective {a b : Text} (ha : IsPart a) (hb : IsPart b)
    (h : self.destination a = self.destination b) : a = b := by
  have hparts := congrArg PurePath.parts h
  rw [parts_destination ha, parts_destination hb, List.append_cancel_left_eq] at hparts
  simpa using (List.cons.inj (List.cons.inj hparts).2).2

theorem tempPath_injective {a b : HexText 32} (h : self.tempPath a = self.tempPath b) : a = b := by
  have hparts := congrArg PurePath.parts h
  rw [(tempPath_eq a).2, (tempPath_eq b).2, List.append_cancel_left_eq] at hparts
  apply Subtype.ext
  exact List.append_cancel_right (List.cons.inj (List.cons.inj hparts).2).1

theorem tempPath_ne_destination (uuid : HexText 32) {sha256 : Text} (h : IsPart sha256) :
    self.tempPath uuid ≠ self.destination sha256 := by
  intro heq
  have hlength := congrArg (fun p => p.parts.length) heq
  simp [(tempPath_eq uuid).2, parts_destination h] at hlength

theorem within_of_parts {p : PurePath} {rest : List Text} (hanchor : p.anchor = self.root.anchor)
    (hparts : p.parts = self.root.parts ++ rest) : p.within self.root = true :=
  PurePath.within_iff.mpr ⟨hanchor, hparts ▸ List.prefix_append self.root.parts rest⟩

theorem within_destination {sha256 : Text} (h : IsPart sha256) :
    (self.destination sha256).within self.root = true :=
  within_of_parts (destination_of_isPart h).1 (destination_of_isPart h).2

theorem within_tempPath (uuid : HexText 32) : (self.tempPath uuid).within self.root = true :=
  within_of_parts (tempPath_eq uuid).1 (tempPath_eq uuid).2

/-! ## References -/

theorem pathForRef_eq_ok {ref : ArtifactRef} {path : PurePath} :
    self.pathForRef ref = .ok path ↔
      "file://".toList <+: ref.uri ∧ self.resolve (ref.uri.drop 7) = some path ∧
        path.within self.root = true ∧ path = self.destination ref.sha256 := by
  unfold pathForRef
  by_cases hscheme : "file://".toList <+: ref.uri
  · rw [if_pos (List.isPrefixOf_iff_prefix.mpr hscheme)]
    cases hresolve : self.resolve (ref.uri.drop 7) with
    | none => simp
    | some p =>
        by_cases hwithin : p.within self.root = true
        · by_cases heq : p = self.destination ref.sha256
          · simp only [if_pos hwithin, if_pos heq, Except.ok.injEq, Option.some.injEq]
            constructor
            · rintro rfl
              exact ⟨hscheme, rfl, hwithin, heq⟩
            · rintro ⟨-, hp, -, -⟩
              exact hp
          · simp only [if_pos hwithin, if_neg heq, reduceCtorEq, false_iff, Option.some.injEq]
            rintro ⟨-, rfl, -, h⟩
            exact heq h
        · simp only [if_neg hwithin, reduceCtorEq, false_iff, Option.some.injEq]
          rintro ⟨-, rfl, h, -⟩
          exact hwithin h
  · rw [if_neg fun h => hscheme (List.isPrefixOf_iff_prefix.mp h)]
    simp only [reduceCtorEq, false_iff]
    exact fun h => hscheme h.1

/-- A reference that `put` returned is accepted. -/
theorem pathForRef_refOf (put : Put) :
    self.pathForRef (self.refOf put) =
      .ok (self.destination (self.hexdigest put.written).val) := by
  have hpart := HexText.isPart (by decide) (self.hexdigest put.written)
  apply pathForRef_eq_ok.mpr
  refine ⟨List.prefix_append .., ?_, within_destination hpart, rfl⟩
  exact self.resolve_destination _

theorem get_eq_ok {ref : ArtifactRef} {s : State} {data : Bytes} :
    self.get ref s = .ok data ↔
      ∃ path, self.pathForRef ref = .ok path ∧ s.files path = some data ∧
        (data.length : ℤ) = ref.size ∧ (self.hexdigest data).val = ref.sha256 := by
  unfold get State.readBytes
  cases hpath : self.pathForRef ref with
  | error e => simp
  | ok path =>
      cases hfile : s.files path with
      | none => simp [hfile]
      | some bytes =>
          simp only [Except.ok.injEq, exists_eq_left', hfile, Option.some.injEq]
          split
          · rename_i hne
            simp only [reduceCtorEq, false_iff, not_and]
            rintro rfl hsize hdigest
            exact hne.elim (fun h => h hsize) fun h => h hdigest
          · rename_i heq
            obtain ⟨hsize, hdigest⟩ := not_or.mp heq
            rw [not_not] at hsize hdigest
            rw [Except.ok.injEq]
            constructor
            · rintro rfl
              exact ⟨rfl, hsize, hdigest⟩
            · rintro ⟨rfl, -, -⟩
              rfl

/-- What can be read depends on the files of the digests only. -/
theorem get_congr {s s' : State}
    (h : ∀ digest : HexText 64, s'.files (self.destination digest.val) =
      s.files (self.destination digest.val)) (ref : ArtifactRef) (data : Bytes) :
    self.get ref s' = .ok data ↔ self.get ref s = .ok data := by
  rw [get_eq_ok, get_eq_ok]
  apply exists_congr
  intro path
  apply and_congr_right
  intro hpath
  obtain ⟨-, -, -, rfl⟩ := pathForRef_eq_ok.mp hpath
  constructor
  · rintro ⟨hfile, hsize, hdigest⟩
    rw [← hdigest, h] at hfile
    exact ⟨hdigest ▸ hfile, hsize, hdigest⟩
  · rintro ⟨hfile, hsize, hdigest⟩
    rw [← hdigest, ← h] at hfile
    exact ⟨hdigest ▸ hfile, hsize, hdigest⟩

end FilesystemArtifactStore

/-! ## The steps of a put -/

namespace State

variable {s s' : State} {path : PurePath}

theorem mkdir_eq_ok (h : s.mkdir path = .ok s') :
    s' = { s with directories := path.ancestors ++ s.directories } := by
  unfold mkdir at h
  split at h
  · cases h
  · split at h
    · cases h
    · cases h
      rfl

theorem uuid_of_put? {uuid : HexText 32} {put : Put} (h : s.put? uuid = some put) :
    put.uuid = uuid := by
  simpa using List.find?_some h

end State

namespace FilesystemArtifactStore

variable {self : FilesystemArtifactStore} {s s' : State}

theorem files_cleanUp (uuid : HexText 32) (s : State) :
    (self.cleanUp uuid s).files = Function.update s.files (self.tempPath uuid) none := by
  unfold cleanUp
  by_cases h : s.isPresent (self.tempPath uuid) = true
  · rw [if_pos h]
    rfl
  · have hnone : s.files (self.tempPath uuid) = none := by
      simp only [State.isPresent, Bool.or_eq_true, not_or, Bool.not_eq_true,
        Option.isSome_eq_false_iff, Option.isNone_iff_eq_none] at h
      exact h.1
    rw [if_neg h, ← hnone, Function.update_eq_self]

@[simp]
theorem pending_cleanUp (uuid : HexText 32) (s : State) :
    (self.cleanUp uuid s).pending = s.pending := by
  unfold cleanUp
  split <;> rfl

@[simp]
theorem directories_cleanUp (uuid : HexText 32) (s : State) :
    (self.cleanUp uuid s).directories = s.directories := by
  unfold cleanUp
  split <;> rfl

theorem files_close (uuid : HexText 32) (s : State) :
    (self.close uuid s).files = Function.update s.files (self.tempPath uuid) none :=
  files_cleanUp uuid _

@[simp]
theorem directories_close (uuid : HexText 32) (s : State) :
    (self.close uuid s).directories = s.directories := directories_cleanUp uuid _

/-- Only the put that is over does not wait any more. -/
theorem put?_close (uuid : HexText 32) (s : State) (u : HexText 32) :
    (self.close uuid s).put? u = if u = uuid then none else s.put? u := by
  unfold State.put? close
  rw [pending_cleanUp, List.find?_filter]
  split
  · rename_i h
    apply List.find?_eq_none.mpr
    intro put _
    simp [h]
  · rename_i h
    congr 1
    funext put
    by_cases hput : put.uuid = u
    · simp [hput, h]
    · simp [hput]

variable {store : FilesystemArtifactStore}

/-- No directory has the name of an artifact. -/
def NoDirectory (store : FilesystemArtifactStore) (s : State) : Prop :=
  ∀ digest : HexText 64, store.destination digest.val ∉ s.directories

theorem NoDirectory.mkdir (h : NoDirectory store s) {path : PurePath}
    (hlength : path.parts.length < store.root.parts.length + 3) (hmkdir : s.mkdir path = .ok s') :
    NoDirectory store s' := by
  intro digest hmem
  rw [State.mkdir_eq_ok hmkdir] at hmem
  rcases List.mem_append.mp hmem with hmem | hmem
  · have hle := (PurePath.mem_ancestors hmem).length_le
    rw [parts_destination (HexText.isPart (by decide) digest)] at hle
    simp at hle
    omega
  · exact h digest hmem

/-- The step of a put leaves everything else alone. -/
structure Frame (store : FilesystemArtifactStore) (uuid : HexText 32) (s s' : State) : Prop where
  files : ∀ p, p ≠ store.tempPath uuid → s'.files p = s.files p
  puts : ∀ u, u ≠ uuid → s'.put? u = s.put? u
  noDirectory : NoDirectory store s → NoDirectory store s'

theorem Frame.trans {uuid : HexText 32} {s₁ s₂ s₃ : State} (h : Frame store uuid s₁ s₂)
    (h' : Frame store uuid s₂ s₃) : Frame store uuid s₁ s₃ where
  files p hp := (h'.files p hp).trans (h.files p hp)
  puts u hu := (h'.puts u hu).trans (h.puts u hu)
  noDirectory hs := h'.noDirectory (h.noDirectory hs)

theorem Frame.destination {uuid : HexText 32} (h : Frame store uuid s s') (digest : HexText 64) :
    s'.files (store.destination digest.val) = s.files (store.destination digest.val) :=
  h.files _ (tempPath_ne_destination uuid (HexText.isPart (by decide) digest)).symm

theorem Frame.tempPath {uuid u : HexText 32} (h : Frame store uuid s s') (hu : u ≠ uuid) :
    s'.files (store.tempPath u) = s.files (store.tempPath u) :=
  h.files _ fun heq => hu (tempPath_injective heq)

theorem frame_mkdir (uuid : HexText 32) {path : PurePath}
    (hlength : path.parts.length < store.root.parts.length + 3) (hmkdir : s.mkdir path = .ok s') :
    Frame store uuid s s' where
  files p _ := by rw [State.mkdir_eq_ok hmkdir]
  puts u _ := by
    rw [State.mkdir_eq_ok hmkdir]
    rfl
  noDirectory hs := hs.mkdir hlength hmkdir

theorem frame_cleanUp (uuid : HexText 32) (s : State) : Frame store uuid s (store.cleanUp uuid s) where
  files p hp := by rw [files_cleanUp, Function.update_of_ne hp]
  puts u _ := by rw [State.put?, pending_cleanUp, State.put?]
  noDirectory hs digest := by
    rw [directories_cleanUp]
    exact hs digest

theorem frame_close (uuid : HexText 32) (s : State) : Frame store uuid s (store.close uuid s) where
  files p hp := by rw [files_close, Function.update_of_ne hp]
  puts u hu := by rw [put?_close, if_neg hu]
  noDirectory hs digest := by
    rw [directories_close]
    exact hs digest

/-- A put is over and has left nothing. -/
structure Over (store : FilesystemArtifactStore) (uuid : HexText 32) (s : State) : Prop where
  file : s.files (store.tempPath uuid) = none
  put : s.put? uuid = none

theorem over_close (uuid : HexText 32) (s : State) : Over store uuid (store.close uuid s) where
  file := by rw [files_close, Function.update_self]
  put := by rw [put?_close, if_pos rfl]

theorem length_tmpDir : store.tmpDir.parts.length < store.root.parts.length + 3 := by
  rw [tmpDir, PurePath.parts_join isPart_tmp]
  simp

theorem length_parent (digest : HexText 64) :
    (store.destination digest.val).parent.parts.length < store.root.parts.length + 3 := by
  change (store.destination digest.val).parts.dropLast.length < _
  rw [parts_destination (HexText.isPart (by decide) digest)]
  simp

end FilesystemArtifactStore

open FilesystemArtifactStore

variable {store : FilesystemArtifactStore} {s s' : State} {uuid : HexText 32} {outcome : Outcome}

/-- A put is called: it waits with an empty file, or fails. -/
theorem step_start {mediaType : Text} {expectedMaxBytes : ℤ}
    (h : step store s (.start uuid mediaType expectedMaxBytes) = some (outcome, s')) :
    Frame store uuid s s' ∧
      ((outcome = .waiting ∧ s'.files (store.tempPath uuid) = some [] ∧
          s'.put? uuid = some ⟨uuid, mediaType, expectedMaxBytes, []⟩) ∨
        ∃ e, outcome = .put (.error e) ∧ (Over store uuid s → Over store uuid s')) := by
  simp only [step, start, Option.some.injEq, Prod.mk.injEq] at h
  obtain ⟨rfl, rfl⟩ := h
  by_cases hlimit : expectedMaxBytes < 0
  · rw [if_pos hlimit]
    exact ⟨⟨fun _ _ => rfl, fun _ _ => rfl, id⟩, Or.inr ⟨_, rfl, id⟩⟩
  · rw [if_neg hlimit]
    cases hmkdir : s.mkdir store.tmpDir with
    | error e => exact ⟨⟨fun _ _ => rfl, fun _ _ => rfl, id⟩, Or.inr ⟨e, rfl, id⟩⟩
    | ok s₁ =>
        have hframe := frame_mkdir uuid length_tmpDir hmkdir
        dsimp only
        split
        · refine ⟨hframe.trans (frame_cleanUp uuid s₁), Or.inr ⟨_, rfl, ?_⟩⟩
          intro hover
          constructor
          · rw [files_cleanUp, Function.update_self]
          · rw [State.put?, pending_cleanUp, State.mkdir_eq_ok hmkdir]
            exact hover.put
        · refine ⟨hframe.trans ⟨?_, ?_, id⟩, Or.inl ⟨rfl, Function.update_self .., ?_⟩⟩
          · intro p hp
            exact Function.update_of_ne hp ..
          · intro u hu
            exact List.find?_cons_of_neg (by simpa using hu.symm)
          · exact List.find?_cons_of_pos (by simp)

/-- A chunk arrives: it is written, or the put fails. -/
theorem step_chunk {bytes : Bytes}
    (h : step store s (.chunk uuid bytes) = some (outcome, s')) :
    ∃ put, s.put? uuid = some put ∧ Frame store uuid s s' ∧
      ((outcome = .waiting ∧
          s'.files (store.tempPath uuid) = (s.files (store.tempPath uuid)).map (· ++ bytes) ∧
          s'.put? uuid = some { put with written := put.written ++ bytes }) ∨
        ∃ e, outcome = .put (.error e) ∧ Over store uuid s') := by
  simp only [step] at h
  cases hput : s.put? uuid with
  | none => simp [hput] at h
  | some put =>
      obtain rfl := State.uuid_of_put? hput
      simp only [hput, chunk, Option.some.injEq, Prod.mk.injEq] at h
      obtain ⟨rfl, rfl⟩ := h
      refine ⟨put, rfl, ?_⟩
      split
      · exact ⟨frame_close put.uuid s, Or.inr ⟨_, rfl, over_close put.uuid s⟩⟩
      · have hputs : ∀ u, List.find? (fun p => decide (p.uuid = u)) (s.pending.map fun p =>
            if p.uuid = put.uuid then { p with written := p.written ++ bytes } else p) =
              (s.put? u).map fun p =>
                if p.uuid = put.uuid then { p with written := p.written ++ bytes } else p := by
          intro u
          rw [List.find?_map]
          congr 2
          funext p
          by_cases hp : p.uuid = put.uuid <;> simp [hp]
        refine ⟨⟨?_, ?_, id⟩, Or.inl ⟨rfl, Function.update_self .., ?_⟩⟩
        · intro p hp
          exact Function.update_of_ne hp ..
        · intro u hu
          refine (hputs u).trans ?_
          cases hother : s.put? u with
          | none => rfl
          | some other =>
              have hne : other.uuid ≠ put.uuid := State.uuid_of_put? hother ▸ hu
              simp [hne]
        · refine (hputs put.uuid).trans ?_
          simp [hput]

/-- The stream raises. -/
theorem step_raise (h : step store s (.raise uuid) = some (outcome, s')) :
    ∃ put, s.put? uuid = some put ∧ Frame store uuid s s' ∧
      outcome = .put (.error .stream) ∧ Over store uuid s' := by
  simp only [step] at h
  cases hput : s.put? uuid with
  | none => simp [hput] at h
  | some put =>
      simp only [hput, Option.some.injEq, Prod.mk.injEq] at h
      obtain ⟨rfl, rfl⟩ := h
      exact ⟨put, rfl, frame_close uuid s, rfl, over_close uuid s⟩

/-- What a put that returns has done: its file has gone, and the file of its digest
has what it had, or else the contents of that file. -/
structure Returned (store : FilesystemArtifactStore) (put : Put) (s s' : State) : Prop where
  gone : Over store put.uuid s'
  files : ∀ p, p ≠ store.tempPath put.uuid →
    p ≠ store.destination (store.hexdigest put.written).val → s'.files p = s.files p
  puts : ∀ u, u ≠ put.uuid → s'.put? u = s.put? u
  noDirectory : NoDirectory store s → NoDirectory store s'
  destination : NoDirectory store s → ∃ data, s.files (store.tempPath put.uuid) = some data ∧
    s'.files (store.destination (store.hexdigest put.written).val) =
      some ((s.files (store.destination (store.hexdigest put.written).val)).getD data)

theorem move_eq_ok {put : Put} (h : store.move put s = .ok s') :
    ∃ data, s.files (store.tempPath put.uuid) = some data ∧
      s' = if s.isPresent (store.destination (store.hexdigest put.written).val) then
          s.remove (store.tempPath put.uuid)
        else (s.remove (store.tempPath put.uuid)).write
          (store.destination (store.hexdigest put.written).val) data := by
  unfold move State.unlink State.replace at h
  cases hfile : s.files (store.tempPath put.uuid) with
  | none =>
      rw [hfile] at h
      dsimp only at h
      split at h <;> cases h
  | some data =>
      rw [hfile] at h
      dsimp only at h
      refine ⟨data, rfl, ?_⟩
      split at h
      · rename_i hpresent
        rw [if_pos hpresent]
        cases h
        rfl
      · rename_i hpresent
        rw [if_neg hpresent]
        cases h
        rfl

theorem returned_close {put : Put} {s₁ : State} (h : store.move put s = .ok s₁) :
    Returned store put s (store.close put.uuid s₁) := by
  obtain ⟨data, hdata, hmoved⟩ := move_eq_ok h
  have hclose : Frame store put.uuid s₁ (store.close put.uuid s₁) := frame_close put.uuid s₁
  have hdigest := HexText.isPart (by decide) (store.hexdigest put.written)
  have hpending : s₁.pending = s.pending := by
    rw [hmoved]
    split <;> rfl
  have hdirectories : s₁.directories = s.directories := by
    rw [hmoved]
    split <;> rfl
  refine ⟨over_close put.uuid s₁, ?_, ?_, ?_, ?_⟩
  · intro p htemp hdestination
    rw [hclose.files p htemp, hmoved]
    split
    · exact Function.update_of_ne htemp ..
    · exact (Function.update_of_ne hdestination ..).trans (Function.update_of_ne htemp ..)
  · intro u hu
    rw [hclose.puts u hu, State.put?, hpending, State.put?]
  · intro hs
    apply hclose.noDirectory
    intro digest
    rw [hdirectories]
    exact hs digest
  · intro hs
    refine ⟨data, hdata, ?_⟩
    rw [hclose.destination, hmoved]
    have hnot : decide (store.destination (store.hexdigest put.written).val ∈ s.directories) =
        false := decide_eq_false (hs _)
    cases hfile : s.files (store.destination (store.hexdigest put.written).val) with
    | none =>
        rw [if_neg (by simp [State.isPresent, hfile, hnot])]
        exact Function.update_self ..
    | some bytes =>
        rw [if_pos (by simp [State.isPresent, hfile])]
        exact (Function.update_of_ne (tempPath_ne_destination put.uuid hdigest).symm ..).trans hfile

/-- The stream ends: the put returns, or fails. -/
theorem step_finish (h : step store s (.finish uuid) = some (outcome, s')) :
    ∃ put, s.put? uuid = some put ∧
      ((outcome = .put (.ok (store.refOf put)) ∧ Returned store put s s') ∨
        ∃ e, outcome = .put (.error e) ∧ Frame store uuid s s' ∧ Over store uuid s') := by
  simp only [step] at h
  cases hput : s.put? uuid with
  | none => simp [hput] at h
  | some put =>
      obtain rfl := State.uuid_of_put? hput
      simp only [hput, finish, Option.some.injEq, Prod.mk.injEq] at h
      obtain ⟨rfl, rfl⟩ := h
      refine ⟨put, rfl, ?_⟩
      cases hmkdir : s.mkdir (store.destination (store.hexdigest put.written).val).parent with
      | error e => exact Or.inr ⟨e, rfl, frame_close put.uuid s, over_close put.uuid s⟩
      | ok s₁ =>
          have hframe := frame_mkdir put.uuid
            (length_parent (store.hexdigest put.written)) hmkdir
          dsimp only
          cases hmove : store.move put s₁ with
          | error e =>
              exact Or.inr ⟨e, rfl, hframe.trans (frame_close put.uuid s₁),
                over_close put.uuid s₁⟩
          | ok s₂ =>
              have hreturned := returned_close hmove
              have hfiles : s₁.files = s.files := by rw [State.mkdir_eq_ok hmkdir]
              have hdirectory := hframe.noDirectory
              refine Or.inl ⟨rfl, hreturned.gone, ?_, ?_, ?_, ?_⟩
              · intro p htemp hdestination
                rw [← hfiles]
                exact hreturned.files p htemp hdestination
              · intro u hu
                exact (hreturned.puts u hu).trans (hframe.puts u hu)
              · exact fun hs => hreturned.noDirectory (hdirectory hs)
              · intro hs
                rw [← hfiles]
                exact hreturned.destination (hdirectory hs)

/-- A delete removes the file of an accepted reference, and does nothing else. -/
theorem step_delete {ref : ArtifactRef}
    (h : step store s (.delete ref) = some (outcome, s')) :
    s'.pending = s.pending ∧ s'.directories = s.directories ∧
      ((∃ path, store.pathForRef ref = .ok path ∧
          s'.files = Function.update s.files path none) ∨
        (∃ e, store.pathForRef ref = .error e) ∧ s' = s) := by
  simp only [step, delete] at h
  cases hpath : store.pathForRef ref with
  | error e =>
      simp only [hpath, Option.some.injEq, Prod.mk.injEq] at h
      obtain ⟨-, rfl⟩ := h
      exact ⟨rfl, rfl, Or.inr ⟨⟨e, rfl⟩, rfl⟩⟩
  | ok path =>
      simp only [hpath, State.unlink] at h
      cases hfile : s.files path with
      | some data =>
          simp only [hfile, Option.some.injEq, Prod.mk.injEq] at h
          obtain ⟨-, rfl⟩ := h
          exact ⟨rfl, rfl, Or.inl ⟨path, rfl, rfl⟩⟩
      | none =>
          have hsame : s' = s := by
            simp only [hfile] at h
            cases hmissing : s.missing path <;> rw [hmissing] at h <;> cases h <;> rfl
          rw [hsame]
          refine ⟨rfl, rfl, Or.inl ⟨path, rfl, ?_⟩⟩
          rw [← hfile, Function.update_eq_self]

end CrawlTrove.Artifacts
