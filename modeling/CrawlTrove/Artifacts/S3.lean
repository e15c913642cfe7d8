import CrawlTrove.Artifacts.References

/-!
# The artifacts of a worker in a bucket

`S3ArtifactStore` (`app/artifacts/s3.py`). A put uploads what it has spooled under a
temporary key, copies the object to the key of its digest with the metadata, and
deletes the temporary one; if a call fails it deletes the temporary one in its
`finally`. The calls of several puts and the other operations take turns, and
any of them may fail without effect.

The copy rewrites the metadata of an object that is there. `verify` compares the
metadata, media type included, `get` the contents only.
-/

namespace CrawlTrove.Artifacts.S3

open Web (Text)

/-- What a call of the client raises: a `ClientError`, or a `BotoCoreError` or
`OSError`. -/
inductive Fault where
  | client (name : String) (code : Option String) (status : Option ℤ)
  | transport (name : String)
  deriving DecidableEq

/-- `_NOT_FOUND_CODES`. -/
def notFoundCodes : List String := ["404", "NoSuchKey", "NotFound", "NoSuchBucket", "404 Not Found"]

/-- `_is_not_found`. -/
def Fault.isNotFound : Fault → Bool
  | .client _ code status => notFoundCodes.any (fun c => code == some c) || status == some 404
  | .transport _ => false

/-- The `detail` of `_storage_error`. -/
def Fault.detail : Fault → String
  | .client name code status =>
      let coded := match code with
        | none => name
        | some code => if code = "" then name else name ++ " code=" ++ code
      match status with
      | none => coded
      | some status => coded ++ " status=" ++ toString status
  | .transport name => name

def storageError (operation : String) (fault : Fault) : Error :=
  .storage ("S3 " ++ operation ++ " failed: " ++ fault.detail)

/-- What S3 raises for a key without an object. -/
def noSuchKey : Fault := .client "ClientError" (some "404") (some 404)

/-- The metadata a put writes. -/
structure Metadata where
  sha256 : Text
  mediaType : Text
  size : String
  deriving DecidableEq

structure Object where
  body : Bytes
  metadata : Metadata
  deriving DecidableEq

/-- `_WORKER_ID`. -/
def isWorkerId : Text → Bool
  | [] => false
  | c :: rest =>
      c.isAlphanum && decide (rest.length ≤ 63) &&
        rest.all fun d => d.isAlphanum || d = '_' || d = '-'

structure S3ArtifactStore where
  bucket : Text
  workerId : Text
  hexdigest : Bytes → HexText 64
  bucket_ne_nil : bucket ≠ []
  isWorkerId_workerId : isWorkerId workerId = true

/-- Where a put stands: it reads its stream, has uploaded, has copied, or has failed and
is about to delete the temporary object. -/
inductive Phase where
  | reading
  | uploaded
  | copied
  | failed (error : Error)
  deriving DecidableEq

def Phase.error? : Phase → Option Error
  | .failed error => some error
  | _ => none

structure Put where
  uuid : HexText 32
  mediaType : Text
  expectedMaxBytes : ℤ
  written : Bytes
  phase : Phase

/-- The objects of the bucket, the keys that were named in a call, and the puts that
are waiting. -/
structure State where
  objects : Text → Option Object
  touched : List Text
  pending : List Put

namespace State

def put? (s : State) (uuid : HexText 32) : Option Put := s.pending.find? fun p => p.uuid = uuid

/-- The put, if it stands there. -/
def at? (s : State) (uuid : HexText 32) (phase : Phase) : Option Put :=
  (s.put? uuid).filter fun p => p.phase = phase

def touch (s : State) (key : Text) : State := { s with touched := key :: s.touched }

def write (s : State) (key : Text) (object : Option Object) : State :=
  { s with objects := Function.update s.objects key object }

/-- The put goes on. -/
def update (s : State) (uuid : HexText 32) (f : Put → Put) : State :=
  { s with pending := s.pending.map fun p => if p.uuid = uuid then f p else p }

def setPhase (s : State) (uuid : HexText 32) (phase : Phase) : State :=
  s.update uuid fun p => { p with phase }

/-- The put is over. -/
def close (s : State) (uuid : HexText 32) : State :=
  { s with pending := s.pending.filter fun p => p.uuid ≠ uuid }

end State

/-! ## Reading the stream -/

/-- `put`, until it waits for the first chunk. -/
def start (put : Put) (s : State) : Except Error Unit × State :=
  if put.expectedMaxBytes < 0 then
    (.error (.tooLarge "artifact size limit cannot be negative"), s)
  else (.ok (), { s with pending := put :: s.pending })

/-- A turn of its loop. -/
def chunk (put : Put) (bytes : Bytes) (s : State) : Except Error Unit × State :=
  if ((put.written.length + bytes.length : ℕ) : ℤ) > put.expectedMaxBytes then
    (.error (.tooLarge ("artifact exceeds " ++ toString put.expectedMaxBytes ++ " byte limit")),
      s.close put.uuid)
  else (.ok (), s.update put.uuid fun p => { p with written := p.written ++ bytes })

/-! ## Keys and references -/

namespace S3ArtifactStore

variable (self : S3ArtifactStore)

/-- `prefix`. -/
def directory : Text := "workers/".toList ++ self.workerId ++ ['/']

/-- The key of a digest that has passed the test. -/
def keyOf (sha256 : Text) : Text :=
  self.directory ++ "sha256/".toList ++ sha256.take 2 ++ '/' :: sha256

def keyForSha256 (sha256 : Text) : Except Error Text :=
  if sha256.length = 64 ∧ sha256.all isHex = true then .ok (self.keyOf sha256)
  else .error (.value "SHA-256 digest must be 64 lowercase hexadecimal characters")

def uriOf (key : Text) : Text := "s3://".toList ++ self.bucket ++ '/' :: key

/-- `_key_for_ref`. -/
def keyForRef (ref : ArtifactRef) : Except Error Text :=
  match self.keyForSha256 ref.sha256 with
  | .error e => .error e
  | .ok key =>
      if ref.uri = self.uriOf key then .ok key
      else .error (.integrity "artifact URI is outside this worker S3 prefix")

def temporaryKey (uuid : HexText 32) : Text := self.directory ++ "tmp/".toList ++ uuid.val

/-- `_metadata`. -/
def metadata (ref : ArtifactRef) : Metadata := ⟨ref.sha256, ref.mediaType, toString ref.size⟩

/-- The reference of contents, as `put` makes it. -/
def refOf (mediaType : Text) (data : Bytes) : ArtifactRef where
  uri := self.uriOf (self.keyOf (self.hexdigest data).val)
  size := data.length
  sha256 := (self.hexdigest data).val
  mediaType

/-! ## The calls of the client -/

/-- `upload_fileobj`. -/
def upload (put : Put) (fault : Option Fault) (s : State) : State :=
  let s := s.touch (self.temporaryKey put.uuid)
  match fault with
  | some fault => s.setPhase put.uuid (.failed (storageError "put" fault))
  | none =>
      (s.write (self.temporaryKey put.uuid) (some
        { body := put.written, metadata := metadata (self.refOf put.mediaType put.written) })).setPhase
          put.uuid .uploaded

/-- `copy_object`, and whether it has put an object where there was none. -/
def copy (put : Put) (fault : Option Fault) (s : State) : Option Bool × State :=
  let key := self.keyOf (self.hexdigest put.written).val
  let s := (s.touch (self.temporaryKey put.uuid)).touch key
  match fault, s.objects (self.temporaryKey put.uuid) with
  | some fault, _ => (none, s.setPhase put.uuid (.failed (storageError "put" fault)))
  | none, none => (none, s.setPhase put.uuid (.failed (storageError "put" noSuchKey)))
  | none, some object =>
      (some (s.objects key).isNone, (s.write key (some object)).setPhase put.uuid .copied)

/-- `delete_object` of the temporary key; the put returns, or enters its `finally`. -/
def settle (put : Put) (fault : Option Fault) (s : State) : Option ArtifactRef × State :=
  let s := s.touch (self.temporaryKey put.uuid)
  match fault with
  | some fault => (none, s.setPhase put.uuid (.failed (storageError "put" fault)))
  | none =>
      (some (self.refOf put.mediaType put.written),
        (s.write (self.temporaryKey put.uuid) none).close put.uuid)

/-- The `finally` of a put that has failed. Its own failure is logged only. -/
def cleanUp (put : Put) (fault : Option Fault) (s : State) : State :=
  let s := s.touch (self.temporaryKey put.uuid)
  match fault with
  | some _ => s.close put.uuid
  | none => (s.write (self.temporaryKey put.uuid) none).close put.uuid

/-- Whether the read of the body ends well is `complete`. -/
def get (ref : ArtifactRef) (fault : Option Fault) (complete : Bool) (s : State) :
    Except Error Bytes :=
  match self.keyForRef ref with
  | .error e => .error e
  | .ok key =>
      match fault.orElse fun _ => if (s.objects key).isNone then some noSuchKey else none with
      | some fault =>
          if fault.isNotFound then .error (.integrity "artifact object is missing")
          else .error (storageError "get" fault)
      | none =>
          let data := ((s.objects key).map Object.body).getD []
          if ¬ complete then .error .stream
          else if (data.length : ℤ) ≠ ref.size ∨ (self.hexdigest data).val ≠ ref.sha256 then
            .error (.integrity "artifact contents do not match its reference")
          else .ok data

def delete (ref : ArtifactRef) (fault : Option Fault) (s : State) : Except Error Unit × State :=
  match self.keyForRef ref with
  | .error e => (.error e, s)
  | .ok key =>
      match fault with
      | some fault => (.error (storageError "delete" fault), s.touch key)
      | none => (.ok (), (s.touch key).write key none)

/-- `head_object`, for `exists` and `verify`. -/
def head (operation : String) (ref : ArtifactRef) (fault : Option Fault) (s : State) :
    Except Error (Option Object) :=
  match self.keyForRef ref with
  | .error e => .error e
  | .ok key =>
      match fault with
      | some fault =>
          if fault.isNotFound then .ok none else .error (storageError operation fault)
      | none => .ok (s.objects key)

/-- `exists`. -/
def isThere (ref : ArtifactRef) (fault : Option Fault) (s : State) : Except Error Bool :=
  match self.head "exists" ref fault s with
  | .error e => .error e
  | .ok object => .ok object.isSome

def verify (ref : ArtifactRef) (fault : Option Fault) (s : State) : Except Error Bool :=
  match self.head "verify" ref fault s with
  | .error e => .error e
  | .ok none => .ok false
  | .ok (some object) =>
      .ok (decide ((object.body.length : ℤ) = ref.size) && decide (object.metadata = metadata ref))

/-- The key of a reference, which `get`, `exists` and `verify` name. -/
def touchRef (ref : ArtifactRef) (s : State) : State :=
  match self.keyForRef ref with
  | .error _ => s
  | .ok key => s.touch key

end S3ArtifactStore

/-! ## Histories -/

/-- What happens next: a put is called, its stream yields a chunk or raises, one of
the calls of the client it waits for comes back, or another operation is made. -/
inductive Call where
  | start (uuid : HexText 32) (mediaType : Text) (expectedMaxBytes : ℤ)
  | chunk (uuid : HexText 32) (bytes : Bytes)
  | raise (uuid : HexText 32)
  | upload (uuid : HexText 32) (fault : Option Fault)
  | copy (uuid : HexText 32) (fault : Option Fault)
  | settle (uuid : HexText 32) (fault : Option Fault)
  | cleanUp (uuid : HexText 32) (fault : Option Fault)
  | get (ref : ArtifactRef) (fault : Option Fault) (complete : Bool)
  | delete (ref : ArtifactRef) (fault : Option Fault)
  | existence (ref : ArtifactRef) (fault : Option Fault)
  | verify (ref : ArtifactRef) (fault : Option Fault)
  deriving DecidableEq

inductive Outcome where
  | waiting
  /-- The copy has succeeded, on a key without an object or over one. -/
  | copied (added : Bool)
  | put (result : Except Error ArtifactRef)
  | bytes (result : Except Error Bytes)
  | done (result : Except Error Unit)
  | answer (result : Except Error Bool)
  deriving DecidableEq

def Outcome.ofUnit : Except Error Unit → Outcome
  | .ok _ => .waiting
  | .error e => .put (.error e)

def Outcome.ofCopy : Option Bool → Outcome
  | some added => .copied added
  | none => .waiting

def Outcome.ofSettle : Option ArtifactRef → Outcome
  | some ref => .put (.ok ref)
  | none => .waiting

/-- One step; none when the put is not there or stands elsewhere. -/
def step (store : S3ArtifactStore) (s : State) : Call → Option (Outcome × State)
  | .start uuid mediaType expectedMaxBytes =>
      some ((S3.start ⟨uuid, mediaType, expectedMaxBytes, [], .reading⟩ s).map .ofUnit id)
  | .chunk uuid bytes =>
      (s.at? uuid .reading).map fun put => (S3.chunk put bytes s).map .ofUnit id
  | .raise uuid => (s.at? uuid .reading).map fun _ => (.put (.error .stream), s.close uuid)
  | .upload uuid fault =>
      (s.at? uuid .reading).map fun put => (.waiting, store.upload put fault s)
  | .copy uuid fault =>
      (s.at? uuid .uploaded).map fun put => (store.copy put fault s).map .ofCopy id
  | .settle uuid fault =>
      (s.at? uuid .copied).map fun put => (store.settle put fault s).map .ofSettle id
  | .cleanUp uuid fault =>
      (s.put? uuid).bind fun put =>
        put.phase.error?.map fun error => (.put (.error error), store.cleanUp put fault s)
  | .get ref fault complete =>
      some (.bytes (store.get ref fault complete s), store.touchRef ref s)
  | .delete ref fault => some ((store.delete ref fault s).map .done id)
  | .existence ref fault => some (.answer (store.isThere ref fault s), store.touchRef ref s)
  | .verify ref fault => some (.answer (store.verify ref fault s), store.touchRef ref s)

/-- The calls and what they came to, newest first. -/
abbrev History := List (Call × Outcome)

/-- Nothing of the worker's is there yet, and no call was made. -/
def Empty (store : S3ArtifactStore) (s : State) : Prop :=
  s.pending = [] ∧ s.touched = [] ∧ ∀ key, store.directory <+: key → s.objects key = none

/-- What can have happened by steps of a kind, and the state it leads to. -/
inductive Run (store : S3ArtifactStore) (allowed : History → State → Call → Prop) :
    History → State → Prop where
  | initial {s : State} : Empty store s → Run store allowed [] s
  | next {history : History} {s s' : State} {call : Call} {outcome : Outcome} :
      Run store allowed history s → allowed history s call →
        step store s call = some (outcome, s') →
          Run store allowed ((call, outcome) :: history) s'

/-- The calls made one after another, each of them if it passes the check. -/
def replay (store : S3ArtifactStore) (check : History → State → Call → Bool) :
    List Call → History → State → Option (History × State)
  | [], history, s => some (history, s)
  | call :: calls, history, s =>
      if check history s call then
        (step store s call).bind fun result =>
          replay store check calls ((call, result.1) :: history) result.2
      else none

theorem Run.replay {store : S3ArtifactStore} {allowed : History → State → Call → Prop}
    {check : History → State → Call → Bool}
    (hcheck : ∀ history s call, check history s call = true → allowed history s call)
    {calls : List Call} {history history' : History} {s s' : State}
    (h : Run store allowed history s)
    (hreplay : S3.replay store check calls history s = some (history', s')) :
    Run store allowed history' s' := by
  induction calls generalizing history s with
  | nil =>
      obtain ⟨rfl, rfl⟩ := Prod.mk.inj (Option.some.inj hreplay)
      exact h
  | cons call calls ih =>
      rw [S3.replay] at hreplay
      by_cases hallowed : check history s call = true
      · rw [if_pos hallowed] at hreplay
        obtain ⟨⟨outcome, s₁⟩, hstep, hrest⟩ := Option.bind_eq_some_iff.mp hreplay
        exact ih (h.next (hcheck _ _ _ hallowed) hstep) hrest
      · rw [if_neg hallowed] at hreplay
        cases hreplay

end CrawlTrove.Artifacts.S3
