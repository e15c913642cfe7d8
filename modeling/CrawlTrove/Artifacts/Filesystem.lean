import CrawlTrove.Artifacts.References
import CrawlTrove.Artifacts.Shelves

/-!
# The artifacts of one host

`FilesystemArtifactStore` (`app/artifacts/filesystem.py`) keeps an artifact in a
file whose name is the digest of its contents. A put waits for the chunks of its
stream, so the steps of several puts and the other calls take turns.

The path of a reference is compared with the root joined with the digest the
reference names. Nothing tests that digest: one that begins with a slash
replaces the root, and one with further slashes names another file.
-/

namespace CrawlTrove.Artifacts

open Web (Text)

/-! ## The store -/

def destinationIn (root : PurePath) (sha256 : Text) : PurePath :=
  root / "sha256".toList / sha256.take 2 / sha256

/-- The root, SHA-256, and `Path(text).resolve()`. -/
structure FilesystemArtifactStore where
  root : PurePath
  hexdigest : Bytes → HexText 64
  resolve : Text → Option PurePath
  /-- The root is itself resolved. -/
  anchor_root : root.anchor = .slash
  /-- A resolved path does not go up. -/
  resolve_normal : ∀ text p, resolve text = some p → ['.', '.'] ∉ p.parts
  /-- Below the root there are no links. -/
  resolve_destination : ∀ digest : HexText 64,
    resolve (destinationIn root digest.val).str = some (destinationIn root digest.val)

/-- A put that waits for its stream. `size` is the length of what is written. -/
structure Put where
  uuid : HexText 32
  mediaType : Text
  expectedMaxBytes : ℤ
  written : Bytes

/-- The files and the directories, and the puts that are waiting. -/
structure State where
  files : PurePath → Option Bytes
  directories : List PurePath
  pending : List Put

namespace State

/-- `path.exists()`. -/
def isPresent (s : State) (path : PurePath) : Bool :=
  (s.files path).isSome || decide (path ∈ s.directories)

def write (s : State) (path : PurePath) (bytes : Bytes) : State :=
  { s with files := Function.update s.files path (some bytes) }

def remove (s : State) (path : PurePath) : State :=
  { s with files := Function.update s.files path none }

/-- Writing to an open file; if it has been unlinked, it stays so. -/
def append (s : State) (path : PurePath) (bytes : Bytes) : State :=
  { s with files := Function.update s.files path ((s.files path).map (· ++ bytes)) }

/-- Some part of the path is the name of a file. -/
def blocked (s : State) (path : PurePath) : Bool :=
  path.ancestors.any fun p => (s.files p).isSome

/-- `path.mkdir(parents=True, exist_ok=True)`. -/
def mkdir (s : State) (path : PurePath) : Except Error State :=
  if (s.files path).isSome then .error .fileExists
  else if s.blocked path then .error .notADirectory
  else .ok { s with directories := path.ancestors ++ s.directories }

/-- Why a path has no file. -/
def missing (s : State) (path : PurePath) : Error :=
  if path ∈ s.directories then .isADirectory
  else if s.blocked path then .notADirectory
  else .fileNotFound

def readBytes (s : State) (path : PurePath) : Except Error Bytes :=
  match s.files path with
  | some bytes => .ok bytes
  | none => .error (s.missing path)

def unlink (s : State) (path : PurePath) : Except Error State :=
  match s.files path with
  | some _ => .ok (s.remove path)
  | none => .error (s.missing path)

/-- `os.replace`, of a destination that is not a directory. -/
def replace (s : State) (path destination : PurePath) : Except Error State :=
  match s.files path with
  | some bytes => .ok ((s.remove path).write destination bytes)
  | none => .error (s.missing path)

def put? (s : State) (uuid : HexText 32) : Option Put := s.pending.find? fun p => p.uuid = uuid

end State

namespace FilesystemArtifactStore

variable (self : FilesystemArtifactStore)

def destination (sha256 : Text) : PurePath := destinationIn self.root sha256

def tmpDir : PurePath := self.root / "tmp".toList

def tempPath (uuid : HexText 32) : PurePath := self.tmpDir / (uuid.val ++ ".tmp".toList)

/-- `_path_for_ref`. -/
def pathForRef (ref : ArtifactRef) : Except Error PurePath :=
  if "file://".toList.isPrefixOf ref.uri then
    match self.resolve (ref.uri.drop 7) with
    | none => .error .unresolved
    | some path =>
        if path.within self.root then
          if path = self.destination ref.sha256 then .ok path
          else .error (.integrity "artifact URI does not match its digest")
        else .error (.integrity "artifact URI is outside the configured root")
  else .error (.integrity "artifact URI is not a local file URI")

/-- The `finally` of `put`. -/
def cleanUp (uuid : HexText 32) (s : State) : State :=
  if s.isPresent (self.tempPath uuid) then s.remove (self.tempPath uuid) else s

/-- The put is over. -/
def close (uuid : HexText 32) (s : State) : State :=
  self.cleanUp uuid { s with pending := s.pending.filter fun p => p.uuid ≠ uuid }

/-- The reference `put` returns. -/
def refOf (put : Put) : ArtifactRef where
  uri := "file://".toList ++ (self.destination (self.hexdigest put.written).val).str
  size := put.written.length
  sha256 := (self.hexdigest put.written).val
  mediaType := put.mediaType

/-- `put`, until it waits for the first chunk. -/
def start (put : Put) (s : State) : Except Error Unit × State :=
  if put.expectedMaxBytes < 0 then
    (.error (.tooLarge "artifact size limit cannot be negative"), s)
  else
    match s.mkdir self.tmpDir with
    | .error e => (.error e, s)
    | .ok s =>
        if s.isPresent (self.tempPath put.uuid) then (.error .fileExists, self.cleanUp put.uuid s)
        else
          (.ok (), { s.write (self.tempPath put.uuid) put.written with pending := put :: s.pending })

/-- A turn of its loop. -/
def chunk (put : Put) (bytes : Bytes) (s : State) : Except Error Unit × State :=
  if ((put.written.length + bytes.length : ℕ) : ℤ) > put.expectedMaxBytes then
    (.error (.tooLarge ("artifact exceeds " ++ toString put.expectedMaxBytes ++ " byte limit")),
      self.close put.uuid s)
  else
    (.ok (), { s.append (self.tempPath put.uuid) bytes with
      pending := s.pending.map fun p =>
        if p.uuid = put.uuid then { p with written := p.written ++ bytes } else p })

/-- The file of a put that has read its stream gets its name, or is dropped for the
one that has it. -/
def move (put : Put) (s : State) : Except Error State :=
  let destination := self.destination (self.hexdigest put.written).val
  if s.isPresent destination then s.unlink (self.tempPath put.uuid)
  else s.replace (self.tempPath put.uuid) destination

/-- What comes after the loop. -/
def finish (put : Put) (s : State) : Except Error ArtifactRef × State :=
  match s.mkdir (self.destination (self.hexdigest put.written).val).parent with
  | .error e => (.error e, self.close put.uuid s)
  | .ok s =>
      match self.move put s with
      | .ok s => (.ok (self.refOf put), self.close put.uuid s)
      | .error e => (.error e, self.close put.uuid s)

def get (ref : ArtifactRef) (s : State) : Except Error Bytes :=
  match self.pathForRef ref with
  | .error e => .error e
  | .ok path =>
      match s.readBytes path with
      | .error e => .error e
      | .ok data =>
          if (data.length : ℤ) ≠ ref.size ∨ (self.hexdigest data).val ≠ ref.sha256 then
            .error (.integrity "artifact contents do not match its reference")
          else .ok data

/-- `delete`, which does not mind a file that is missing. -/
def delete (ref : ArtifactRef) (s : State) : Except Error State :=
  match self.pathForRef ref with
  | .error e => .error e
  | .ok path =>
      match s.unlink path with
      | .ok s => .ok s
      | .error .fileNotFound => .ok s
      | .error e => .error e

/-- `exists`. -/
def isFile (ref : ArtifactRef) (s : State) : Except Error Bool :=
  match self.pathForRef ref with
  | .error e => .error e
  | .ok path => .ok (s.files path).isSome

def verify (ref : ArtifactRef) (s : State) : Except Error Bool :=
  match self.get ref s with
  | .ok _ => .ok true
  | .error .fileNotFound => .ok false
  | .error (.integrity _) => .ok false
  | .error e => .error e

end FilesystemArtifactStore

/-! ## Histories -/

/-- What happens next: a put is called, its stream yields a chunk, ends or
raises, or one of the other calls is made. -/
inductive Call where
  | start (uuid : HexText 32) (mediaType : Text) (expectedMaxBytes : ℤ)
  | chunk (uuid : HexText 32) (bytes : Bytes)
  | finish (uuid : HexText 32)
  | raise (uuid : HexText 32)
  | get (ref : ArtifactRef)
  | delete (ref : ArtifactRef)
  | existence (ref : ArtifactRef)
  | verify (ref : ArtifactRef)
  deriving DecidableEq

inductive Outcome where
  /-- The put waits for its next chunk. -/
  | waiting
  | put (result : Except Error ArtifactRef)
  | bytes (result : Except Error Bytes)
  | done (result : Except Error Unit)
  | answer (result : Except Error Bool)
  deriving DecidableEq

/-- A put that failed is over, one that did not waits. -/
def Outcome.ofUnit : Except Error Unit → Outcome
  | .ok _ => .waiting
  | .error e => .put (.error e)

/-- One step; none when the put is not waiting. -/
def step (store : FilesystemArtifactStore) (s : State) : Call → Option (Outcome × State)
  | .start uuid mediaType expectedMaxBytes =>
      let (result, s') := store.start ⟨uuid, mediaType, expectedMaxBytes, []⟩ s
      some (.ofUnit result, s')
  | .chunk uuid bytes =>
      match s.put? uuid with
      | none => none
      | some put =>
          let (result, s') := store.chunk put bytes s
          some (.ofUnit result, s')
  | .finish uuid =>
      match s.put? uuid with
      | none => none
      | some put =>
          let (result, s') := store.finish put s
          some (.put result, s')
  | .raise uuid =>
      match s.put? uuid with
      | none => none
      | some _ => some (.put (.error .stream), store.close uuid s)
  | .get ref => some (.bytes (store.get ref s), s)
  | .delete ref =>
      match store.delete ref s with
      | .ok s' => some (.done (.ok ()), s')
      | .error e => some (.done (.error e), s)
  | .existence ref => some (.answer (store.isFile ref s), s)
  | .verify ref => some (.answer (store.verify ref s), s)

/-- The calls and what they came to, newest first. -/
abbrev History := List (Call × Outcome)

/-- Nothing of the store's own is there yet. -/
def Empty (store : FilesystemArtifactStore) (s : State) : Prop :=
  s.pending = [] ∧ ∀ p, p.within store.root = true →
    s.files p = none ∧ (p ∈ s.directories → p = store.root)

/-- What can have happened, and the state it leads to. -/
inductive Run (store : FilesystemArtifactStore) : History → State → Prop where
  | initial {s : State} : Empty store s → Run store [] s
  | next {history : History} {s s' : State} {call : Call} {outcome : Outcome} :
      Run store history s → step store s call = some (outcome, s') →
        Run store ((call, outcome) :: history) s'

/-- The calls made one after another. -/
def replay (store : FilesystemArtifactStore) :
    List Call → History → State → Option (History × State)
  | [], history, s => some (history, s)
  | call :: calls, history, s =>
      match step store s call with
      | none => none
      | some (outcome, s') => replay store calls ((call, outcome) :: history) s'

theorem Run.replay {store : FilesystemArtifactStore} {calls : List Call}
    {history history' : History} {s s' : State} (h : Run store history s)
    (hreplay : Artifacts.replay store calls history s = some (history', s')) :
    Run store history' s' := by
  induction calls generalizing history s with
  | nil =>
      obtain ⟨rfl, rfl⟩ := Prod.mk.inj (Option.some.inj hreplay)
      exact h
  | cons call calls ih =>
      rw [Artifacts.replay] at hreplay
      cases hstep : step store s call with
      | none => simp [hstep] at hreplay
      | some result =>
          rw [hstep] at hreplay
          exact ih (h.next hstep) hreplay

end CrawlTrove.Artifacts
