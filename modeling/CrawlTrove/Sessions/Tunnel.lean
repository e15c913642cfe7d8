import CrawlTrove.Relational.Transaction

/-!
# The owned-session tunnel

`OwnedSessionTunnel` (`app/acquisition/owned_session.py`): controls relay actions to the
worker of their session and wait for its replies. The handlers are coroutines; an event
is what one of them does between two awaits, and events of any number of handlers may
follow one another in any order. Whatever an await may raise, a timeout and a
cancellation included, is the event that runs the `finally` block.
-/

namespace CrawlTrove.Sessions.OwnedSession

open Relational

/-! ## Frames -/

/-- What `json.loads` returns; the keys of a mapping are distinct. -/
inductive Json
  | null
  | bool (b : Bool)
  | number (text : String)
  | string (s : String)
  | array (items : List Json)
  | object (fields : List (String × Json))

/-- A text frame of a worker: too long, not JSON, or a value. -/
inductive Frame
  | tooLong
  | malformed
  | json (payload : Json)

/-- The replies `_valid_worker_result` lets through. -/
inductive Reply
  | ok
  | pong
  | screenshot (artifactRef : String)
deriving DecidableEq

/-- `set(fields) == {key}`. -/
def onlyKey (key : String) (fields : List (String × Json)) : Bool :=
  !fields.isEmpty && fields.all fun field => field.1 = key

/-- `[0-9a-f]`. -/
def isHexDigit (c : Char) : Bool :=
  (decide ('0' ≤ c) && decide (c ≤ '9')) || (decide ('a' ≤ c) && decide (c ≤ 'f'))

/-- The digits of `sha256:([0-9a-f]{64})`. -/
def artifactDigest (ref : String) : Option String :=
  let digest := ref.toList.drop 7
  if ref.toList.take 7 = "sha256:".toList && digest.length = 64 && digest.all isHexDigit then
    some (String.ofList digest)
  else none

/-- `_valid_worker_result`. -/
def validWorkerResult (result : List (String × Json)) : Option Reply :=
  if onlyKey "ok" result then
    match result.lookup "ok" with
    | some (.bool true) => some .ok
    | _ => none
  else if onlyKey "pong" result then
    match result.lookup "pong" with
    | some (.bool true) => some .pong
    | _ => none
  else if onlyKey "screenshot" result then
    match result.lookup "screenshot" with
    | some (.object screenshot) =>
        if onlyKey "artifactRef" screenshot then
          match screenshot.lookup "artifactRef" with
          | some (.string ref) => if (artifactDigest ref).isSome then some (.screenshot ref) else none
          | _ => none
        else none
    | _ => none
  else none

/-- The request id and the reply of a frame; the connection is closed if it has none. -/
def readFrame : Frame → Option (String × Reply)
  | .json (.object payload) =>
      match payload.lookup "id", payload.lookup "result" with
      | some (.string requestId), some (.object result) =>
          if requestId.length ≤ 64 then (validWorkerResult result).map fun r => (requestId, r)
          else none
      | _, _ => none
  | _ => none

/-- `expose_screenshot`: a control sees a path to the screenshot, with a fresh token. -/
def exposeScreenshot (sessionId : ℕ) (token : String) : Reply → Reply
  | .screenshot _ =>
      .screenshot ("/api/acquisition/sessions/" ++ toString sessionId ++ "/screenshots/" ++ token)
  | reply => reply

/-! ## The tables -/

/-- `asyncio.Future`. -/
inductive Future
  | waiting
  | result (reply : Reply)
  | failed
  | cancelled
deriving DecidableEq

/-- A row of `_pending`: the key, and the worker with the future of the action. -/
structure Pending where
  session : ℕ
  requestId : String
  worker : ℕ
  action : ℕ
deriving DecidableEq

/-- What an action was sent with. -/
structure Action where
  control : ℕ
  session : ℕ
  requestId : String
  worker : ℕ
deriving DecidableEq

/-- A worker connection: not yet made, running for a session, or gone. -/
inductive Connection
  | unused
  | running (session : ℕ)
  | gone
deriving DecidableEq

/-- Where a control handler is: at the next frame, between sending an action and waiting
for its future, waiting for it, or passing the reply on. -/
inductive Phase
  | unused
  | idle (session : ℕ)
  | sending (action : ℕ)
  | waiting (action : ℕ)
  | replying (action : ℕ)
  | ended
deriving DecidableEq

/-- The action of a control call in progress. -/
def Phase.action? : Phase → Option ℕ
  | .sending action => some action
  | .waiting action => some action
  | .replying action => some action
  | _ => none

/-- The tunnel with its handlers, all actions that were relayed (an action is its index,
which also names its future), the replies that workers sent and the replies that controls
received. -/
structure Tunnel where
  workers : ℕ → Option ℕ := fun _ => none
  pending : List Pending := []
  connections : ℕ → Connection := fun _ => .unused
  controls : ℕ → Phase := fun _ => .unused
  actions : List Action := []
  futures : ℕ → Future := fun _ => .waiting
  replies : List (ℕ × String × Reply) := []
  received : List (ℕ × Reply) := []

/-- The row with this key. -/
def hasKey (session : ℕ) (requestId : String) (p : Pending) : Bool :=
  p.session = session && p.requestId = requestId

def Tunnel.find (t : Tunnel) (session : ℕ) (requestId : String) : Option Pending :=
  t.pending.find? (hasKey session requestId)

/-- `self._pending.pop(key, None)`. -/
def Tunnel.pop (t : Tunnel) (session : ℕ) (requestId : String) : Tunnel :=
  { t with pending := t.pending.filter fun p => !hasKey session requestId p }

/-- Resolve a future unless it is done. -/
def Tunnel.resolve (t : Tunnel) (action : ℕ) (future : Future) : Tunnel :=
  { t with
    futures := fun i =>
      if i = action ∧ t.futures action = .waiting then future else t.futures i }

/-! ## The worker handler -/

def belongsTo (session worker : ℕ) (p : Pending) : Bool :=
  p.session = session && p.worker = worker

/-- `_drop_pending`. -/
def Tunnel.dropPending (t : Tunnel) (session worker : ℕ) : Tunnel :=
  { t with
    pending := t.pending.filter fun p => !belongsTo session worker p
    futures := fun action =>
      if t.futures action = .waiting ∧
          ∃ p ∈ t.pending, belongsTo session worker p = true ∧ p.action = action then .failed
      else t.futures action }

/-- The `finally` block of `worker`. -/
def Tunnel.workerGone (t : Tunnel) (session worker : ℕ) : Tunnel :=
  { t.dropPending session worker with
    connections := Function.update t.connections worker .gone
    workers := fun s =>
      if s = session ∧ t.workers session = some worker then none else t.workers s }

/-- A reply takes its row out of the table, and resolves the future if the action was
sent on this connection. -/
def Tunnel.reply (t : Tunnel) (session worker : ℕ) (requestId : String) (reply : Reply) : Tunnel :=
  let found := t.find session requestId
  let t := { t.pop session requestId with replies := (worker, requestId, reply) :: t.replies }
  match found with
  | some p => if p.worker = worker then t.resolve p.action (.result reply) else t
  | none => t

/-! ## The control handler -/

/-- An action is sent to the worker of the session, if there is one. -/
def Tunnel.relay (t : Tunnel) (control session : ℕ) (requestId : String) : Tunnel :=
  match t.workers session with
  | none => t
  | some worker =>
      let action := t.actions.length
      { t.pop session requestId with
        pending := (t.pop session requestId).pending ++ [⟨session, requestId, worker, action⟩]
        actions := t.actions ++ [⟨control, session, requestId, worker⟩]
        futures := Function.update t.futures action .waiting
        controls := Function.update t.controls control (.sending action) }

/-- The `finally` block of an action. -/
def Tunnel.actionOver (t : Tunnel) (action : ℕ) : Tunnel :=
  match t.actions[action]? with
  | none => t
  | some a =>
      match t.find a.session a.requestId with
      | none => t
      | some p => (t.pop a.session a.requestId).resolve p.action .cancelled

def Tunnel.enter (t : Tunnel) (control : ℕ) (phase : Phase) : Tunnel :=
  { t with controls := Function.update t.controls control phase }

/-! ## Events -/

inductive Event
  /-- A worker connection is accepted. -/
  | attach (worker session : ℕ)
  /-- A text frame of a worker; `token` is drawn for a screenshot. -/
  | frame (worker : ℕ) (frame : Frame) (token : String)
  /-- Receiving or touching the session raises. -/
  | disconnect (worker : ℕ)
  | openControl (control session : ℕ)
  /-- A valid action arrives; `requestId` is drawn for it. -/
  | relay (control : ℕ) (requestId : String)
  /-- The action has been sent and the session touched. -/
  | sent (control : ℕ)
  /-- The future has a result, and the control is sent it. -/
  | receive (control : ℕ)
  | replied (control : ℕ)
  /-- An await of a control call raises. -/
  | abort (control : ℕ)
  /-- A control ends without an action in progress. -/
  | leave (control : ℕ)

def step (e : Event) (t : Tunnel) : Tunnel :=
  match e with
  | .attach worker session =>
      if t.connections worker = .unused then
        { t with
          connections := Function.update t.connections worker (.running session)
          workers := Function.update t.workers session (some worker) }
      else t
  | .frame worker frame token =>
      match t.connections worker with
      | .running session =>
          match readFrame frame with
          | none => t.workerGone session worker
          | some (requestId, reply) =>
              t.reply session worker requestId (exposeScreenshot session token reply)
      | _ => t
  | .disconnect worker =>
      match t.connections worker with
      | .running session => t.workerGone session worker
      | _ => t
  | .openControl control session =>
      if t.controls control = .unused then t.enter control (.idle session) else t
  | .relay control requestId =>
      match t.controls control with
      | .idle session => t.relay control session requestId
      | _ => t
  | .sent control =>
      match t.controls control with
      | .sending action => t.enter control (.waiting action)
      | _ => t
  | .receive control =>
      match t.controls control with
      | .waiting action =>
          match t.futures action with
          | .result reply =>
              { t.enter control (.replying action) with
                received := (action, reply) :: t.received }
          | _ => t
      | _ => t
  | .replied control =>
      match t.controls control with
      | .replying action =>
          match t.actions[action]? with
          | some a => (t.actionOver action).enter control (.idle a.session)
          | none => t
      | _ => t
  | .abort control =>
      match (t.controls control).action? with
      | some action => (t.actionOver action).enter control .ended
      | none => t
  | .leave control =>
      match t.controls control with
      | .idle _ => t.enter control .ended
      | _ => t

/-! ## What is claimed of a run -/

/-- The request id of an action is new. -/
def FreshId (e : Event) (t : Tunnel) : Prop :=
  match e with
  | .relay _ requestId => ∀ a ∈ t.actions, a.requestId ≠ requestId
  | _ => True

instance (e : Event) (t : Tunnel) : Decidable (FreshId e t) :=
  match e with
  | .relay _ requestId => inferInstanceAs (Decidable (∀ a ∈ t.actions, a.requestId ≠ requestId))
  | .attach _ _ => inferInstanceAs (Decidable True)
  | .frame _ _ _ => inferInstanceAs (Decidable True)
  | .disconnect _ => inferInstanceAs (Decidable True)
  | .openControl _ _ => inferInstanceAs (Decidable True)
  | .sent _ => inferInstanceAs (Decidable True)
  | .receive _ => inferInstanceAs (Decidable True)
  | .replied _ => inferInstanceAs (Decidable True)
  | .abort _ => inferInstanceAs (Decidable True)
  | .leave _ => inferInstanceAs (Decidable True)

/-- The frame has the id of a pending action of the session only if it comes on the
connection the action was sent on. -/
def OwnReply (e : Event) (t : Tunnel) : Prop :=
  match e with
  | .frame worker frame _ => ∀ session requestId reply,
      t.connections worker = .running session → readFrame frame = some (requestId, reply) →
        ∀ p ∈ t.pending, hasKey session requestId p = true → p.worker = worker
  | _ => True

/-- The action waits for its reply. -/
def Unanswered (t : Tunnel) (action : ℕ) : Prop :=
  t.futures action = .waiting ∧
    ∃ control, t.controls control = .sending action ∨ t.controls control = .waiting action

/-- The event ends the worker connection. -/
def Event.Ends (worker : ℕ) : Event → Prop
  | .disconnect w => w = worker
  | .frame w f _ => w = worker ∧ readFrame f = none
  | _ => False

/-- The end of a connection fails the unanswered actions that were sent on it, and leaves
every other action as it is. -/
def FailsExactly (e : Event) (t : Tunnel) : Prop :=
  ∀ worker session, t.connections worker = .running session → e.Ends worker →
    ∀ i a, t.actions[i]? = some a →
      (Unanswered t i ∧ a.worker = worker → (step e t).futures i = .failed) ∧
      (¬ (Unanswered t i ∧ a.worker = worker) → (step e t).futures i = t.futures i)

/-! ## The parts of a step -/

section

variable {t : Tunnel} {session worker control action : ℕ} {requestId : String}

theorem hasKey_iff {p : Pending} :
    hasKey session requestId p = true ↔ p.session = session ∧ p.requestId = requestId := by
  simp [hasKey]

theorem belongsTo_iff {p : Pending} :
    belongsTo session worker p = true ↔ p.session = session ∧ p.worker = worker := by
  simp [belongsTo]

theorem mem_pop {p : Pending} :
    p ∈ (t.pop session requestId).pending ↔
      p ∈ t.pending ∧ ¬ hasKey session requestId p = true := by
  simp [Tunnel.pop]

theorem find_eq_some {p : Pending} (h : t.find session requestId = some p) :
    p ∈ t.pending ∧ p.session = session ∧ p.requestId = requestId :=
  ⟨List.mem_of_find?_eq_some h, hasKey_iff.mp (List.find?_some h)⟩

theorem controls_enter (phase : Phase) (c : ℕ) :
    (t.enter control phase).controls c = if c = control then phase else t.controls c :=
  Function.update_apply t.controls control phase c

/-- The end of an action takes the row with its key out of the table. -/
theorem mem_actionOver {p : Pending} {a : Action} (ha : t.actions[action]? = some a)
    (hp : p ∈ (t.actionOver action).pending) :
    p ∈ t.pending ∧ ¬ hasKey a.session a.requestId p = true := by
  unfold Tunnel.actionOver at hp
  rw [ha] at hp
  cases hfind : t.find a.session a.requestId with
  | none =>
      simp only [hfind] at hp
      exact ⟨hp, List.find?_eq_none.mp hfind p hp⟩
  | some q =>
      simp only [hfind] at hp
      exact mem_pop.mp hp

theorem mem_actionOver_of {p : Pending} {a : Action} (ha : t.actions[action]? = some a)
    (hp : p ∈ t.pending) (hkey : ¬ hasKey a.session a.requestId p = true) :
    p ∈ (t.actionOver action).pending := by
  unfold Tunnel.actionOver
  rw [ha]
  cases hfind : t.find a.session a.requestId with
  | none => simpa only [hfind] using hp
  | some q =>
      simp only [hfind]
      exact mem_pop.mpr ⟨hp, hkey⟩

/-- What the end of an action leaves alone. -/
theorem actionOver_frame (t : Tunnel) (action : ℕ) :
    (t.actionOver action).workers = t.workers ∧
      (t.actionOver action).connections = t.connections ∧
      (t.actionOver action).controls = t.controls ∧ (t.actionOver action).actions = t.actions ∧
      (t.actionOver action).replies = t.replies ∧ (t.actionOver action).received = t.received := by
  unfold Tunnel.actionOver
  cases t.actions[action]? with
  | none => exact ⟨rfl, rfl, rfl, rfl, rfl, rfl⟩
  | some a =>
      cases hfind : t.find a.session a.requestId with
      | none => simp only [hfind, and_self]
      | some p =>
          simp only [hfind]
          exact ⟨rfl, rfl, rfl, rfl, rfl, rfl⟩

/-- The end of an action cancels futures that wait, and no other. -/
theorem futures_actionOver (t : Tunnel) (action i : ℕ) :
    (t.actionOver action).futures i = t.futures i ∨
      t.futures i = .waiting ∧ (t.actionOver action).futures i = .cancelled := by
  unfold Tunnel.actionOver
  cases t.actions[action]? with
  | none => exact Or.inl rfl
  | some a =>
      cases hfind : t.find a.session a.requestId with
      | none => exact Or.inl (by simp only [hfind])
      | some p =>
          simp only [hfind]
          show (if i = p.action ∧ t.futures p.action = .waiting then Future.cancelled
            else t.futures i) = _ ∨ _ ∧ (if i = p.action ∧ t.futures p.action = .waiting
              then Future.cancelled else t.futures i) = _
          by_cases hi : i = p.action ∧ t.futures p.action = .waiting
          · obtain ⟨rfl, hwaiting⟩ := hi
            exact Or.inr ⟨hwaiting, if_pos ⟨rfl, hwaiting⟩⟩
          · exact Or.inl (if_neg hi)

/-- A reply takes the row with its key out of the table, and at most resolves the future of
a row that was sent on its connection. -/
theorem reply_cases (t : Tunnel) (session worker : ℕ) (requestId : String) (r : Reply) :
    (∀ p, t.find session requestId = some p → p.worker ≠ worker) ∧
        t.reply session worker requestId r =
          { t.pop session requestId with replies := (worker, requestId, r) :: t.replies } ∨
      ∃ p, t.find session requestId = some p ∧ p.worker = worker ∧
        t.reply session worker requestId r = Tunnel.resolve
          { t.pop session requestId with replies := (worker, requestId, r) :: t.replies }
          p.action (.result r) := by
  unfold Tunnel.reply
  cases hfind : t.find session requestId with
  | none => exact Or.inl ⟨by rintro p ⟨⟩, rfl⟩
  | some p =>
      by_cases hworker : p.worker = worker
      · exact Or.inr ⟨p, rfl, hworker, if_pos hworker⟩
      · refine Or.inl ⟨?_, if_neg hworker⟩
        rintro q ⟨⟩
        exact hworker

/-- What a step can do. -/
theorem step_cases {P : Tunnel → Prop} (e : Event) (t : Tunnel) (same : P t)
    (attach : ∀ worker session, t.connections worker = .unused →
      P { t with
        connections := Function.update t.connections worker (.running session)
        workers := Function.update t.workers session (some worker) })
    (gone : ∀ worker session, t.connections worker = .running session → e.Ends worker →
      P (t.workerGone session worker))
    (replies : ∀ worker session f token requestId r, e = .frame worker f token →
      t.connections worker = .running session → readFrame f = some (requestId, r) →
        P (t.reply session worker requestId (exposeScreenshot session token r)))
    (relays : ∀ control session requestId, e = .relay control requestId →
      t.controls control = .idle session → P (t.relay control session requestId))
    (moves : ∀ control phase, ((t.controls control).action? = none ∧ phase.action? = none ∨
      ∃ i, t.controls control = .sending i ∧ phase = .waiting i) → P (t.enter control phase))
    (receives : ∀ control i r, t.controls control = .waiting i → t.futures i = .result r →
      P { t.enter control (.replying i) with received := (i, r) :: t.received })
    (ends : ∀ control i phase, (t.controls control).action? = some i → phase.action? = none →
      P ((t.actionOver i).enter control phase)) :
    P (step e t) := by
  unfold step
  cases e with
  | attach worker session =>
      dsimp only
      split
      · exact attach worker session ‹_›
      · exact same
  | frame worker f token =>
      cases hconnection : t.connections worker with
      | running session =>
          cases hframe : readFrame f with
          | none =>
              simp only [hconnection, hframe]
              exact gone worker session hconnection ⟨rfl, hframe⟩
          | some p =>
              simp only [hconnection, hframe]
              exact replies worker session f token p.1 p.2 rfl hconnection hframe
      | unused => simpa only [hconnection] using same
      | gone => simpa only [hconnection] using same
  | disconnect worker =>
      cases hconnection : t.connections worker with
      | running session =>
          simp only [hconnection]
          exact gone worker session hconnection rfl
      | unused => simpa only [hconnection] using same
      | gone => simpa only [hconnection] using same
  | openControl control session =>
      dsimp only
      split
      · rename_i hunused
        exact moves control (.idle session) (Or.inl ⟨by rw [hunused]; rfl, rfl⟩)
      · exact same
  | relay control requestId =>
      cases hphase : t.controls control with
      | idle session =>
          simp only [hphase]
          exact relays control session requestId rfl hphase
      | unused => simpa only [hphase] using same
      | sending i => simpa only [hphase] using same
      | waiting i => simpa only [hphase] using same
      | replying i => simpa only [hphase] using same
      | ended => simpa only [hphase] using same
  | sent control =>
      cases hphase : t.controls control with
      | sending i =>
          simp only [hphase]
          exact moves control (.waiting i) (Or.inr ⟨i, hphase, rfl⟩)
      | idle session => simpa only [hphase] using same
      | unused => simpa only [hphase] using same
      | waiting i => simpa only [hphase] using same
      | replying i => simpa only [hphase] using same
      | ended => simpa only [hphase] using same
  | receive control =>
      cases hphase : t.controls control with
      | waiting i =>
          cases hfuture : t.futures i with
          | result r =>
              simp only [hphase, hfuture]
              exact receives control i r hphase hfuture
          | waiting => simpa only [hphase, hfuture] using same
          | failed => simpa only [hphase, hfuture] using same
          | cancelled => simpa only [hphase, hfuture] using same
      | idle session => simpa only [hphase] using same
      | unused => simpa only [hphase] using same
      | sending i => simpa only [hphase] using same
      | replying i => simpa only [hphase] using same
      | ended => simpa only [hphase] using same
  | replied control =>
      cases hphase : t.controls control with
      | replying i =>
          cases haction : t.actions[i]? with
          | some a =>
              simp only [hphase, haction]
              exact ends control i (.idle a.session) (by rw [hphase]; rfl) rfl
          | none => simpa only [hphase, haction] using same
      | idle session => simpa only [hphase] using same
      | unused => simpa only [hphase] using same
      | sending i => simpa only [hphase] using same
      | waiting i => simpa only [hphase] using same
      | ended => simpa only [hphase] using same
  | abort control =>
      cases hphase : (t.controls control).action? with
      | some i =>
          simp only [hphase]
          exact ends control i .ended hphase rfl
      | none => simpa only [hphase] using same
  | leave control =>
      cases hphase : t.controls control with
      | idle session =>
          simp only [hphase]
          exact moves control .ended (Or.inl ⟨by rw [hphase]; rfl, rfl⟩)
      | unused => simpa only [hphase] using same
      | sending i => simpa only [hphase] using same
      | waiting i => simpa only [hphase] using same
      | replying i => simpa only [hphase] using same
      | ended => simpa only [hphase] using same

end

/-! ## The tables -/

/-- Every row is that of an action in progress, sent on a connection that runs; request
ids tell actions apart. -/
structure Wired (t : Tunnel) : Prop where
  running : ∀ session worker, t.workers session = some worker →
    t.connections worker = .running session
  rows : ∀ p ∈ t.pending, t.connections p.worker = .running p.session ∧
    ∃ control, t.actions[p.action]? = some ⟨control, p.session, p.requestId, p.worker⟩ ∧
      (t.controls control).action? = some p.action
  ids : ∀ (i j : ℕ) (a b : Action), t.actions[i]? = some a → t.actions[j]? = some b →
    a.requestId = b.requestId → i = j
  acting : ∀ control i, (t.controls control).action? = some i →
    ∃ a, t.actions[i]? = some a ∧ a.control = control

section

variable {t t' : Tunnel}

/-- The row with the key of an action is its own. -/
theorem Wired.own (h : Wired t) {i : ℕ} {a : Action} {p : Pending} (ha : t.actions[i]? = some a)
    (hp : p ∈ t.pending) (hid : p.requestId = a.requestId) : p.action = i := by
  obtain ⟨-, control, haction, -⟩ := h.rows p hp
  exact h.ids p.action i _ a haction ha hid

/-- One control has an action in progress. -/
theorem Wired.control_eq (h : Wired t) {c c' i : ℕ} (hc : (t.controls c).action? = some i)
    (hc' : (t.controls c').action? = some i) : c = c' := by
  obtain ⟨a, ha, rfl⟩ := h.acting c i hc
  obtain ⟨a', ha', rfl⟩ := h.acting c' i hc'
  rw [Option.some.inj (ha.symm.trans ha')]

/-- Where only rows and controls change, and the controls of the rows that stay do not. -/
theorem Wired.keep (h : Wired t) (hworkers : t'.workers = t.workers)
    (hconnections : t'.connections = t.connections) (hactions : t'.actions = t.actions)
    (hpending : ∀ p ∈ t'.pending, p ∈ t.pending ∧ ∀ control,
      (t.controls control).action? = some p.action → (t'.controls control).action? = some p.action)
    (hacting : ∀ control i, (t'.controls control).action? = some i →
      (t.controls control).action? = some i) : Wired t' := by
  constructor
  · rw [hworkers, hconnections]
    exact h.running
  · intro p hp
    obtain ⟨hold, hkept⟩ := hpending p hp
    obtain ⟨hrunning, control, haction, hcontrol⟩ := h.rows p hold
    rw [hconnections, hactions]
    exact ⟨hrunning, control, haction, hkept control hcontrol⟩
  · rw [hactions]
    exact h.ids
  · rw [hactions]
    exact fun control i hi => h.acting control i (hacting control i hi)

theorem Wired.attach (h : Wired t) {worker session : ℕ} (hunused : t.connections worker = .unused) :
    Wired { t with
      connections := Function.update t.connections worker (.running session)
      workers := Function.update t.workers session (some worker) } := by
  -- a connection that runs is another one
  have hother : ∀ w s, t.connections w = .running s → w ≠ worker := by
    rintro w s hrunning rfl
    rw [hunused] at hrunning
    cases hrunning
  refine ⟨fun s w hw => ?_, fun p hp => ?_, h.ids, h.acting⟩
  · change Function.update t.workers session (some worker) s = some w at hw
    show Function.update t.connections worker (.running session) w = .running s
    rw [Function.update_apply] at hw
    split at hw
    · rename_i hs
      cases hw
      rw [Function.update_self, hs]
    · have hrunning := h.running s w hw
      rw [Function.update_of_ne (hother w s hrunning), hrunning]
  · obtain ⟨hrunning, hrow⟩ := h.rows p hp
    refine ⟨?_, hrow⟩
    show Function.update t.connections worker (.running session) p.worker = _
    rw [Function.update_of_ne (hother p.worker p.session hrunning), hrunning]

theorem Wired.gone (h : Wired t) {worker session : ℕ}
    (hrunning : t.connections worker = .running session) : Wired (t.workerGone session worker) := by
  refine ⟨fun s w hw => ?_, fun p hp => ?_, h.ids, h.acting⟩
  · change (if s = session ∧ t.workers session = some worker then none else t.workers s) = some w
      at hw
    show Function.update t.connections worker .gone w = .running s
    by_cases hreplaced : s = session ∧ t.workers session = some worker
    · rw [if_pos hreplaced] at hw
      cases hw
    · rw [if_neg hreplaced] at hw
      have hw' := h.running s w hw
      have hne : w ≠ worker := by
        rintro rfl
        obtain rfl : s = session := by
          rw [hrunning] at hw'
          exact (Connection.running.inj hw').symm
        exact hreplaced ⟨rfl, hw⟩
      rw [Function.update_of_ne hne, hw']
  · obtain ⟨hp, hstays⟩ := List.mem_filter.mp hp
    obtain ⟨hconnection, hrow⟩ := h.rows p hp
    refine ⟨?_, hrow⟩
    have hne : p.worker ≠ worker := by
      rintro rfl
      have hsession : p.session = session := by
        rw [hrunning] at hconnection
        exact (Connection.running.inj hconnection).symm
      rw [belongsTo_iff.mpr ⟨hsession, rfl⟩] at hstays
      cases hstays
    show Function.update t.connections worker .gone p.worker = _
    rw [Function.update_of_ne hne, hconnection]

theorem Wired.reply (h : Wired t) (session worker : ℕ) (requestId : String) (r : Reply) :
    Wired (t.reply session worker requestId r) := by
  have hrows : ∀ p ∈ (t.pop session requestId).pending, p ∈ t.pending ∧ ∀ control,
      (t.controls control).action? = some p.action →
        (t.controls control).action? = some p.action :=
    fun p hp => ⟨(mem_pop.mp hp).1, fun _ hc => hc⟩
  rcases reply_cases t session worker requestId r with ⟨-, heq⟩ | ⟨p, -, -, heq⟩
  · rw [heq]
    exact h.keep rfl rfl rfl hrows fun _ _ hi => hi
  · rw [heq]
    exact h.keep rfl rfl rfl hrows fun _ _ hi => hi

theorem Wired.relay (h : Wired t) {control session : ℕ} {requestId : String}
    (hidle : t.controls control = .idle session)
    (hfresh : ∀ a ∈ t.actions, a.requestId ≠ requestId) :
    Wired (t.relay control session requestId) := by
  unfold Tunnel.relay
  cases hworker : t.workers session with
  | none => exact h
  | some worker =>
      have hold : ∀ (i : ℕ) (a : Action), t.actions[i]? = some a →
          (t.actions ++ [⟨control, session, requestId, worker⟩])[i]? = some a := by
        intro i a ha
        rw [List.getElem?_append_left (List.getElem?_eq_some_iff.mp ha).1, ha]
      have hnew : (t.actions ++ [⟨control, session, requestId, worker⟩])[t.actions.length]? =
          some ⟨control, session, requestId, worker⟩ := List.getElem?_concat_length
      have hcases : ∀ (i : ℕ) (a : Action),
          (t.actions ++ [⟨control, session, requestId, worker⟩])[i]? = some a →
          t.actions[i]? = some a ∨
            i = t.actions.length ∧ a = ⟨control, session, requestId, worker⟩ := by
        intro i a ha
        rcases lt_trichotomy i t.actions.length with hlt | rfl | hgt
        · rw [List.getElem?_append_left hlt] at ha
          exact Or.inl ha
        · exact Or.inr ⟨rfl, Option.some.inj (ha.symm.trans hnew)⟩
        · rw [List.getElem?_eq_none (by simp; omega)] at ha
          cases ha
      have hbusy : ∀ c i, (t.controls c).action? = some i → c ≠ control := by
        rintro c i hi rfl
        rw [hidle] at hi
        cases hi
      refine ⟨h.running, fun p hp => ?_, fun i j a b ha hb hid => ?_, fun c i hi => ?_⟩
      · rcases List.mem_append.mp hp with hp | hp
        · obtain ⟨hrunning, c, haction, hc⟩ := h.rows p (mem_pop.mp hp).1
          refine ⟨hrunning, c, hold _ _ haction, ?_⟩
          show (Function.update t.controls control _ c).action? = _
          rw [Function.update_of_ne (hbusy c p.action hc), hc]
        · obtain rfl := List.mem_singleton.mp hp
          refine ⟨h.running session worker hworker, control, hnew, ?_⟩
          show (Function.update t.controls control _ control).action? = _
          rw [Function.update_self]
          rfl
      · rcases hcases i a ha with ha | ⟨rfl, rfl⟩
        · rcases hcases j b hb with hb | ⟨rfl, rfl⟩
          · exact h.ids i j a b ha hb hid
          · exact absurd hid (hfresh a (List.mem_of_getElem? ha))
        · rcases hcases j b hb with hb | ⟨rfl, rfl⟩
          · exact absurd hid.symm (hfresh b (List.mem_of_getElem? hb))
          · rfl
      · change (Function.update t.controls control _ c).action? = some i at hi
        rw [Function.update_apply] at hi
        split at hi
        · rename_i hc
          cases hi
          exact ⟨_, hnew, hc.symm⟩
        · obtain ⟨a, ha, hcontrol⟩ := h.acting c i hi
          exact ⟨a, hold i a ha, hcontrol⟩

theorem Wired.enter (h : Wired t) {control : ℕ} {phase : Phase}
    (hphase : phase.action? = (t.controls control).action?) : Wired (t.enter control phase) := by
  have hsame : ∀ c, ((t.enter control phase).controls c).action? = (t.controls c).action? := by
    intro c
    rw [controls_enter]
    split
    · rename_i hc
      rw [hphase, hc]
    · rfl
  refine h.keep rfl rfl rfl (fun p hp => ⟨hp, fun c hc => ?_⟩) fun c i hi => ?_
  · rw [hsame, hc]
  · rw [← hsame, hi]

theorem Wired.over (h : Wired t) {control i : ℕ} {phase : Phase}
    (hacting : (t.controls control).action? = some i) (hphase : phase.action? = none) :
    Wired ((t.actionOver i).enter control phase) := by
  obtain ⟨hworkers, hconnections, hcontrols, hactions, -, -⟩ := actionOver_frame t i
  obtain ⟨a, ha, -⟩ := h.acting control i hacting
  refine h.keep hworkers hconnections hactions (fun p hp => ?_) fun c j hj => ?_
  · obtain ⟨hold, hkey⟩ := mem_actionOver ha hp
    refine ⟨hold, fun c hc => ?_⟩
    rw [controls_enter, hcontrols]
    split
    · -- the control had the action of this row, whose row is out
      rename_i hcontrol
      subst hcontrol
      have hi : p.action = i := Option.some.inj (hc.symm.trans hacting)
      obtain ⟨-, d, haction, -⟩ := h.rows p hold
      rw [hi, ha] at haction
      obtain rfl := Option.some.inj haction
      exact absurd (hasKey_iff.mpr ⟨rfl, rfl⟩) hkey
    · exact hc
  · rw [controls_enter, hcontrols] at hj
    split at hj
    · rw [hphase] at hj
      cases hj
    · exact hj

theorem wired_step (h : Wired t) {e : Event} (hfresh : FreshId e t) : Wired (step e t) := by
  refine step_cases e t h ?_ ?_ ?_ ?_ ?_ ?_ ?_
  · intro worker session hunused
    exact h.attach hunused
  · intro worker session hrunning _
    exact h.gone hrunning
  · intro worker session f token requestId r _ _ _
    exact h.reply session worker requestId _
  · rintro control session requestId rfl hidle
    exact h.relay hidle hfresh
  · rintro control phase (⟨hnone, hphase⟩ | ⟨i, hsending, rfl⟩)
    · exact h.enter (hphase.trans hnone.symm)
    · exact h.enter (by rw [hsending]; rfl)
  · intro control i r hwaiting _
    have hentered : Wired (t.enter control (.replying i)) := h.enter (by rw [hwaiting]; rfl)
    exact ⟨hentered.running, hentered.rows, hentered.ids, hentered.acting⟩
  · intro control i phase hacting hphase
    exact h.over hacting hphase

end

/-! ## Results -/

/-- A future has the result of a reply to its action on the connection that was sent it,
and a control receives the result of its action once. -/
structure Told (t : Tunnel) : Prop where
  results : ∀ i r, t.futures i = .result r →
    ∃ a, t.actions[i]? = some a ∧ (a.worker, a.requestId, r) ∈ t.replies
  received : ∀ d ∈ t.received, t.futures d.1 = .result d.2
  unreceived : ∀ control i, t.controls control = .sending i ∨ t.controls control = .waiting i →
    ∀ d ∈ t.received, d.1 ≠ i
  replying : ∀ control i, t.controls control = .replying i → ∃ r, t.futures i = .result r
  once : (t.received.map Prod.fst).Nodup

/-- Every unanswered action has its row. -/
def Tracked (t : Tunnel) : Prop := ∀ i, Unanswered t i → ∃ p ∈ t.pending, p.action = i

section

variable {t t' : Tunnel}

/-- Where results stay, new ones are replied, and no received action is taken up again. -/
theorem Told.keep (h : Told t) (hstay : ∀ i r, t.futures i = .result r → t'.futures i = .result r)
    (hnew : ∀ i r, t'.futures i = .result r → t.futures i = .result r ∨
      ∃ a, t'.actions[i]? = some a ∧ (a.worker, a.requestId, r) ∈ t'.replies)
    (hactions : ∀ (i : ℕ) (a : Action), t.actions[i]? = some a → t'.actions[i]? = some a)
    (hreplies : ∀ x ∈ t.replies, x ∈ t'.replies) (hreceived : t'.received = t.received)
    (hphase : ∀ c i, t'.controls c = .sending i ∨ t'.controls c = .waiting i →
      t.controls c = .sending i ∨ t.controls c = .waiting i ∨ t.actions[i]? = none)
    (hreplying : ∀ c i, t'.controls c = .replying i → t.controls c = .replying i) : Told t' := by
  refine ⟨fun i r hr => ?_, fun d hd => ?_, fun c i hc d hd => ?_, fun c i hc => ?_, ?_⟩
  · rcases hnew i r hr with hold | hreplied
    · obtain ⟨a, ha, hmem⟩ := h.results i r hold
      exact ⟨a, hactions i a ha, hreplies _ hmem⟩
    · exact hreplied
  · rw [hreceived] at hd
    exact hstay d.1 d.2 (h.received d hd)
  · rw [hreceived] at hd
    rintro rfl
    rcases hphase c d.1 hc with hc | hc | hnone
    · exact h.unreceived c d.1 (Or.inl hc) d hd rfl
    · exact h.unreceived c d.1 (Or.inr hc) d hd rfl
    · obtain ⟨a, ha, -⟩ := h.results d.1 d.2 (h.received d hd)
      rw [hnone] at ha
      cases ha
  · obtain ⟨r, hr⟩ := h.replying c i (hreplying c i hc)
    exact ⟨r, hstay i r hr⟩
  · rw [hreceived]
    exact h.once

theorem Told.gone (h : Told t) (worker session : ℕ) : Told (t.workerGone session worker) := by
  have hfutures : ∀ i, (t.workerGone session worker).futures i = t.futures i ∨
      t.futures i = .waiting ∧ (t.workerGone session worker).futures i = .failed := by
    intro i
    show (if _ then Future.failed else t.futures i) = _ ∨ _ ∧
      (if _ then Future.failed else t.futures i) = _
    split
    · rename_i hdropped
      exact Or.inr ⟨hdropped.1, rfl⟩
    · exact Or.inl rfl
  refine h.keep (fun i r hr => ?_) (fun i r hr => ?_) (fun i a ha => ha) (fun x hx => hx) rfl
    (fun c i hc => hc.imp_right Or.inl) fun c i hc => hc
  · rcases hfutures i with hsame | ⟨hwaiting, -⟩
    · rw [hsame, hr]
    · rw [hwaiting] at hr
      cases hr
  · rcases hfutures i with hsame | ⟨-, hfailed⟩
    · exact Or.inl (hsame ▸ hr)
    · rw [hfailed] at hr
      cases hr

theorem Told.reply (h : Told t) (hwired : Wired t) (session worker : ℕ) (requestId : String)
    (r : Reply) : Told (t.reply session worker requestId r) := by
  rcases reply_cases t session worker requestId r with ⟨-, heq⟩ | ⟨p, hfind, hworker, heq⟩
  · rw [heq]
    exact h.keep (fun i r hr => hr) (fun i r hr => Or.inl hr) (fun i a ha => ha)
      (fun x hx => List.mem_cons_of_mem _ hx) rfl (fun c i hc => hc.imp_right Or.inl)
      fun c i hc => hc
  · obtain ⟨hp, -, hid⟩ := find_eq_some hfind
    obtain ⟨-, control, haction, -⟩ := hwired.rows p hp
    rw [heq]
    refine h.keep (fun i r' hr => ?_) (fun i r' hr => ?_) (fun i a ha => ha)
      (fun x hx => List.mem_cons_of_mem _ hx) rfl (fun c i hc => hc.imp_right Or.inl)
      fun c i hc => hc
    · show (if i = p.action ∧ t.futures p.action = .waiting then _ else t.futures i) = _
      rw [if_neg, hr]
      rintro ⟨rfl, hwaiting⟩
      rw [hwaiting] at hr
      cases hr
    · change (if i = p.action ∧ t.futures p.action = .waiting then Future.result r
        else t.futures i) = _ at hr
      split at hr
      · rename_i hresolved
        obtain ⟨rfl, -⟩ := hresolved
        cases hr
        refine Or.inr ⟨_, haction, ?_⟩
        show (p.worker, p.requestId, r) ∈ (worker, requestId, r) :: t.replies
        rw [hworker, hid]
        exact List.mem_cons_self
      · exact Or.inl hr

theorem Told.relay (h : Told t) (control session : ℕ) (requestId : String) :
    Told (t.relay control session requestId) := by
  unfold Tunnel.relay
  cases t.workers session with
  | none => exact h
  | some worker =>
      have hnone : t.actions[t.actions.length]? = none := List.getElem?_eq_none le_rfl
      refine h.keep (fun i r hr => ?_) (fun i r hr => ?_) (fun i a ha => ?_) (fun x hx => hx) rfl
        (fun c i hc => ?_) fun c i hc => ?_
      · show Function.update t.futures t.actions.length .waiting i = _
        rw [Function.update_of_ne, hr]
        rintro rfl
        obtain ⟨a, ha, -⟩ := h.results _ r hr
        rw [hnone] at ha
        cases ha
      · change Function.update t.futures t.actions.length .waiting i = _ at hr
        rw [Function.update_apply] at hr
        split at hr
        · cases hr
        · exact Or.inl hr
      · exact (List.getElem?_append_left (List.getElem?_eq_some_iff.mp ha).1).trans ha
      · change Function.update t.controls control _ c = _ ∨
          Function.update t.controls control _ c = _ at hc
        rw [Function.update_apply] at hc
        split at hc
        · rcases hc with hc | hc
          · cases hc
            exact Or.inr (Or.inr hnone)
          · cases hc
        · exact hc.imp_right Or.inl
      · change Function.update t.controls control _ c = _ at hc
        rw [Function.update_apply] at hc
        split at hc
        · cases hc
        · exact hc

theorem Told.enter (h : Told t) {control : ℕ} {phase : Phase}
    (hphase : ∀ i, phase = .sending i ∨ phase = .waiting i → t.controls control = .sending i)
    (hreplying : ∀ i, phase ≠ .replying i) : Told (t.enter control phase) := by
  refine h.keep (fun i r hr => hr) (fun i r hr => Or.inl hr) (fun i a ha => ha) (fun x hx => hx)
    rfl (fun c i hc => ?_) fun c i hc => ?_
  · rw [controls_enter] at hc
    split at hc
    · rename_i hcontrol
      rw [hcontrol]
      exact Or.inl (hphase i hc)
    · exact hc.imp_right Or.inl
  · rw [controls_enter] at hc
    split at hc
    · exact absurd hc (hreplying i)
    · exact hc

theorem Told.actionOver (h : Told t) (action : ℕ) : Told (t.actionOver action) := by
  obtain ⟨-, -, hcontrols, hactions, hreplies, hreceived⟩ := actionOver_frame t action
  refine h.keep (fun i r hr => ?_) (fun i r hr => ?_) (fun i a ha => ?_) (fun x hx => ?_) hreceived
    (fun c i hc => ?_) fun c i hc => ?_
  · rcases futures_actionOver t action i with hsame | ⟨hwaiting, -⟩
    · rw [hsame, hr]
    · rw [hwaiting] at hr
      cases hr
  · rcases futures_actionOver t action i with hsame | ⟨-, hcancelled⟩
    · exact Or.inl (hsame ▸ hr)
    · rw [hcancelled] at hr
      cases hr
  · rw [hactions, ha]
  · rw [hreplies]
    exact hx
  · rw [hcontrols] at hc
    exact hc.imp_right Or.inl
  · rw [hcontrols] at hc
    exact hc

theorem Told.receive (h : Told t) (hwired : Wired t) {control i : ℕ} {r : Reply}
    (hwaiting : t.controls control = .waiting i) (hresult : t.futures i = .result r) :
    Told { t.enter control (.replying i) with received := (i, r) :: t.received } := by
  refine ⟨h.results, fun d hd => ?_, fun c j hc d hd => ?_, fun c j hc => ?_, ?_⟩
  · rcases List.mem_cons.mp hd with rfl | hd
    · exact hresult
    · exact h.received d hd
  · change (t.enter control (.replying i)).controls c = _ ∨
      (t.enter control (.replying i)).controls c = _ at hc
    rw [controls_enter] at hc
    split at hc
    · rcases hc with hc | hc
      · cases hc
      · cases hc
    · rename_i hother
      rcases List.mem_cons.mp hd with rfl | hd
      · -- another control cannot have this action
        rintro rfl
        have hj : (t.controls c).action? = some i := by
          rcases hc with hc | hc
          · rw [hc]
            rfl
          · rw [hc]
            rfl
        exact hother (hwired.control_eq hj (by rw [hwaiting]; rfl))
      · exact h.unreceived c j hc d hd
  · change (t.enter control (.replying i)).controls c = _ at hc
    rw [controls_enter] at hc
    split at hc
    · cases hc
      exact ⟨r, hresult⟩
    · exact h.replying c j hc
  · refine List.nodup_cons.mpr ⟨fun hmem => ?_, h.once⟩
    obtain ⟨d, hd, hi⟩ := List.mem_map.mp hmem
    exact h.unreceived control i (Or.inr hwaiting) d hd hi

theorem told_step (h : Told t) (hwired : Wired t) (e : Event) : Told (step e t) := by
  refine step_cases e t h ?_ ?_ ?_ ?_ ?_ ?_ ?_
  · intro worker session _
    exact ⟨h.results, h.received, h.unreceived, h.replying, h.once⟩
  · intro worker session _ _
    exact h.gone worker session
  · intro worker session f token requestId r _ _ _
    exact h.reply hwired session worker requestId _
  · intro control session requestId _ _
    exact h.relay control session requestId
  · rintro control phase (⟨-, hphase⟩ | ⟨i, hsending, rfl⟩)
    · refine h.enter (fun i hi => ?_) fun i hi => ?_
      · rcases hi with rfl | rfl
        · cases hphase
        · cases hphase
      · subst hi
        cases hphase
    · refine h.enter (fun j hj => ?_) fun j hj => by cases hj
      rcases hj with hj | hj
      · cases hj
      · cases hj
        exact hsending
  · intro control i r hwaiting hresult
    exact h.receive hwired hwaiting hresult
  · intro control i phase _ hphase
    refine (h.actionOver i).enter (fun j hj => ?_) fun j hj => ?_
    · rcases hj with rfl | rfl
      · cases hphase
      · cases hphase
    · subst hj
      cases hphase

/-! ## Rows of unanswered actions -/

/-- An unanswered action was unanswered before, where handlers take up no action and no
done future waits again. -/
theorem Unanswered.old {i : ℕ} (h : Unanswered t' i)
    (hfutures : t'.futures i = .waiting → t.futures i = .waiting)
    (hcontrols : ∀ c, t'.controls c = .sending i ∨ t'.controls c = .waiting i →
      t.controls c = .sending i ∨ t.controls c = .waiting i) : Unanswered t i := by
  obtain ⟨hwaiting, c, hc⟩ := h
  exact ⟨hfutures hwaiting, c, hcontrols c hc⟩

theorem Tracked.gone (h : Tracked t) (session worker : ℕ) :
    Tracked (t.workerGone session worker) := by
  intro i hi
  have hwaiting : t.futures i = .waiting ∧
      ¬ ∃ p ∈ t.pending, belongsTo session worker p = true ∧ p.action = i := by
    have hfuture := hi.1
    change (if t.futures i = .waiting ∧ ∃ p ∈ t.pending, belongsTo session worker p = true ∧
      p.action = i then Future.failed else t.futures i) = .waiting at hfuture
    split at hfuture
    · cases hfuture
    · rename_i hdropped
      exact ⟨hfuture, fun hrow => hdropped ⟨hfuture, hrow⟩⟩
  obtain ⟨p, hp, haction⟩ := h i (hi.old (fun _ => hwaiting.1) fun c hc => hc)
  refine ⟨p, List.mem_filter.mpr ⟨hp, ?_⟩, haction⟩
  have hother : ¬ belongsTo session worker p = true :=
    fun hbelongs => hwaiting.2 ⟨p, hp, hbelongs, haction⟩
  simpa using hother

theorem Tracked.reply (h : Tracked t) (hwired : Wired t) {session worker : ℕ}
    {requestId : String} (r : Reply)
    (hown : ∀ p ∈ t.pending, hasKey session requestId p = true → p.worker = worker) :
    Tracked (t.reply session worker requestId r) := by
  intro i hi
  rcases reply_cases t session worker requestId r with ⟨hforeign, heq⟩ | ⟨q, hfind, -, heq⟩
  · rw [heq] at hi ⊢
    obtain ⟨p, hp, haction⟩ := h i (hi.old id fun c hc => hc)
    refine ⟨p, mem_pop.mpr ⟨hp, fun hkey => ?_⟩, haction⟩
    -- a row with this key would have been found, and was sent on this connection
    cases hfind : t.find session requestId with
    | none => exact List.find?_eq_none.mp hfind p hp hkey
    | some q =>
        have hq := List.mem_of_find?_eq_some hfind
        exact hforeign q hfind (hown q hq (List.find?_some hfind))
  · rw [heq] at hi ⊢
    have hfuture := hi.1
    change (if i = q.action ∧ t.futures q.action = .waiting then Future.result r
      else t.futures i) = .waiting at hfuture
    split at hfuture
    · cases hfuture
    · rename_i hunresolved
      obtain ⟨p, hp, haction⟩ := h i (hi.old (fun _ => hfuture) fun c hc => hc)
      refine ⟨p, mem_pop.mpr ⟨hp, fun hkey => ?_⟩, haction⟩
      -- the row that was found is that of this action, whose future is resolved
      obtain ⟨hq, -, hid⟩ := find_eq_some hfind
      obtain ⟨-, c, hrow, -⟩ := hwired.rows p hp
      have hsame : q.action = p.action :=
        hwired.own hrow hq (hid.trans (hasKey_iff.mp hkey).2.symm)
      refine hunresolved ⟨(hsame.trans haction).symm, ?_⟩
      rw [hsame, haction]
      exact hfuture

theorem Tracked.relay (h : Tracked t) (hwired : Wired t) {control session : ℕ}
    {requestId : String} (hfresh : ∀ a ∈ t.actions, a.requestId ≠ requestId) :
    Tracked (t.relay control session requestId) := by
  unfold Tunnel.relay
  cases t.workers session with
  | none => exact h
  | some worker =>
      intro i hi
      by_cases hnew : i = t.actions.length
      · exact ⟨⟨session, requestId, worker, t.actions.length⟩,
          List.mem_append_right _ (List.mem_singleton.mpr rfl), hnew.symm⟩
      · have hold : Unanswered t i := by
          refine hi.old (fun hwaiting => ?_) fun c hc => ?_
          · change Function.update t.futures t.actions.length .waiting i = .waiting at hwaiting
            rwa [Function.update_of_ne hnew] at hwaiting
          · change Function.update t.controls control (.sending t.actions.length) c = _ ∨
              Function.update t.controls control (.sending t.actions.length) c = _ at hc
            rw [Function.update_apply] at hc
            split at hc
            · rcases hc with hc | hc
              · exact absurd (Phase.sending.inj hc).symm hnew
              · cases hc
            · exact hc
        obtain ⟨p, hp, haction⟩ := h i hold
        refine ⟨p, List.mem_append_left _ (mem_pop.mpr ⟨hp, fun hkey => ?_⟩), haction⟩
        obtain ⟨-, c, hrow, -⟩ := hwired.rows p hp
        exact hfresh _ (List.mem_of_getElem? hrow) (hasKey_iff.mp hkey).2

theorem Tracked.over (h : Tracked t) (hwired : Wired t) {control j : ℕ} {phase : Phase}
    (hacting : (t.controls control).action? = some j) (hphase : phase.action? = none) :
    Tracked ((t.actionOver j).enter control phase) := by
  intro i hi
  obtain ⟨-, -, hcontrols, -, -, -⟩ := actionOver_frame t j
  obtain ⟨hfuture, c, hc⟩ := hi
  rw [controls_enter, hcontrols] at hc
  split at hc
  · rcases hc with rfl | rfl
    · cases hphase
    · cases hphase
  · rename_i hother
    have hwaiting : t.futures i = .waiting := by
      rcases futures_actionOver t j i with hsame | ⟨hwaiting, -⟩
      · exact hsame.symm.trans hfuture
      · exact hwaiting
    obtain ⟨p, hp, haction⟩ := h i ⟨hwaiting, c, hc⟩
    obtain ⟨a, ha, -⟩ := hwired.acting control j hacting
    refine ⟨p, mem_actionOver_of ha hp fun hkey => ?_, haction⟩
    -- the row that goes is that of the action that ends
    have hj : p.action = j := hwired.own ha hp (hasKey_iff.mp hkey).2
    have hi : (t.controls c).action? = some j := by
      rw [← hj, haction]
      rcases hc with hc | hc
      · rw [hc]
        rfl
      · rw [hc]
        rfl
    exact hother (hwired.control_eq hi hacting)

theorem tracked_step (h : Tracked t) (hwired : Wired t) {e : Event} (hfresh : FreshId e t)
    (hown : OwnReply e t) : Tracked (step e t) := by
  refine step_cases e t h ?_ ?_ ?_ ?_ ?_ ?_ ?_
  · intro worker session _ i hi
    exact h i hi
  · intro worker session _ _
    exact h.gone session worker
  · rintro worker session f token requestId r rfl hrunning hframe
    exact h.reply hwired _ (hown session requestId r hrunning hframe)
  · rintro control session requestId rfl _
    exact h.relay hwired hfresh
  · rintro control phase (⟨-, hphase⟩ | ⟨j, hsending, rfl⟩) i hi
    · refine h i (hi.old id fun c hc => ?_)
      rw [controls_enter] at hc
      split at hc
      · rcases hc with rfl | rfl
        · cases hphase
        · cases hphase
      · exact hc
    · refine h i (hi.old id fun c hc => ?_)
      rw [controls_enter] at hc
      split at hc
      · rename_i hcontrol
        rcases hc with hc | hc
        · cases hc
        · cases hc
          exact Or.inl (hcontrol ▸ hsending)
      · exact hc
  · intro control j r hwaiting hresult i hi
    refine h i (hi.old id fun c hc => ?_)
    change (t.enter control (.replying j)).controls c = _ ∨
      (t.enter control (.replying j)).controls c = _ at hc
    rw [controls_enter] at hc
    split at hc
    · rcases hc with hc | hc
      · cases hc
      · cases hc
    · exact hc
  · intro control j phase hacting hphase
    exact h.over hwired hacting hphase

/-! ## The end of a connection -/

theorem step_of_ends {e : Event} {worker session : ℕ}
    (hrunning : t.connections worker = .running session) (hends : e.Ends worker) :
    step e t = t.workerGone session worker := by
  cases e with
  | disconnect w =>
      obtain rfl : w = worker := hends
      simp only [step, hrunning]
  | frame w f token =>
      obtain ⟨rfl, hframe⟩ := hends
      simp only [step, hrunning, hframe]
  | attach => exact hends.elim
  | openControl => exact hends.elim
  | relay => exact hends.elim
  | sent => exact hends.elim
  | receive => exact hends.elim
  | replied => exact hends.elim
  | abort => exact hends.elim
  | leave => exact hends.elim

/-- With its row in the table an unanswered action fails with its connection. -/
theorem failsExactly_of_tracked (h : Tracked t) (hwired : Wired t) (htold : Told t) (e : Event) :
    FailsExactly e t := by
  intro worker session hrunning hends i a ha
  rw [step_of_ends hrunning hends]
  constructor
  · rintro ⟨hunanswered, hworker⟩
    obtain ⟨p, hp, haction⟩ := h i hunanswered
    obtain ⟨hconnection, c, hrow, -⟩ := hwired.rows p hp
    rw [haction, ha] at hrow
    obtain rfl := Option.some.inj hrow
    obtain rfl : p.worker = worker := hworker
    rw [hrunning] at hconnection
    have hbelongs : belongsTo session p.worker p = true :=
      belongsTo_iff.mpr ⟨(Connection.running.inj hconnection).symm, rfl⟩
    exact if_pos ⟨hunanswered.1, p, hp, hbelongs, haction⟩
  · intro hother
    refine if_neg ?_
    rintro ⟨hwaiting, p, hp, hbelongs, haction⟩
    obtain ⟨-, c, hrow, hacting⟩ := hwired.rows p hp
    rw [haction, ha] at hrow
    obtain rfl := Option.some.inj hrow
    refine hother ⟨⟨hwaiting, c, ?_⟩, (belongsTo_iff.mp hbelongs).2⟩
    rw [haction] at hacting
    cases hphase : t.controls c with
    | sending j =>
        rw [hphase] at hacting
        cases hacting
        exact Or.inl rfl
    | waiting j =>
        rw [hphase] at hacting
        cases hacting
        exact Or.inr rfl
    | replying j =>
        rw [hphase] at hacting
        cases hacting
        obtain ⟨r, hr⟩ := htold.replying c i hphase
        rw [hwaiting] at hr
        cases hr
    | unused => rw [hphase] at hacting; cases hacting
    | idle => rw [hphase] at hacting; cases hacting
    | ended => rw [hphase] at hacting; cases hacting

end

/-- What controls receive are replies to their own actions on the connections these were
sent on, each action has at most one, and without a control call in progress no row is
left; and if every reply comes on the connection of its action, the end of a connection
fails exactly the unanswered actions that were sent on it. -/
theorem replies_reach_their_request (events : List Event)
    (hfresh : StepsMeet step FreshId {} events) :
    (∀ d ∈ (runFrom step {} events).received, ∃ a, (runFrom step {} events).actions[d.1]? = some a ∧
        (a.worker, a.requestId, d.2) ∈ (runFrom step {} events).replies) ∧
      ((runFrom step {} events).received.map Prod.fst).Nodup ∧
      ((∀ control, ((runFrom step {} events).controls control).action? = none) →
        (runFrom step {} events).pending = []) ∧
      (StepsMeet step OwnReply {} events → StepsMeet step FailsExactly {} events) := by
  have hwired₀ : Wired {} := by
    refine ⟨?_, ?_, ?_, ?_⟩
    · rintro session worker ⟨⟩
    · intro p hp
      exact absurd hp List.not_mem_nil
    · intro i j a b ha
      simp at ha
    · rintro control i ⟨⟩
  have htold₀ : Told {} := by
    refine ⟨?_, ?_, ?_, ?_, List.nodup_nil⟩
    · rintro i r ⟨⟩
    · intro d hd
      exact absurd hd List.not_mem_nil
    · intro control i _ d hd
      exact absurd hd List.not_mem_nil
    · rintro control i ⟨⟩
  have htracked₀ : Tracked {} := by
    rintro i ⟨-, c, hc⟩
    rcases hc with hc | hc
    · cases hc
    · cases hc
  obtain ⟨hwired, htold⟩ : Wired (runFrom step {} events) ∧ Told (runFrom step {} events) :=
    runFrom_invariant (I := fun t => Wired t ∧ Told t)
      (fun e t hid h => ⟨wired_step h.1 hid, told_step h.2 h.1 e⟩) hfresh ⟨hwired₀, htold₀⟩
  refine ⟨fun d hd => ?_, htold.once, fun hnone => ?_, fun hown => ?_⟩
  · exact htold.results d.1 d.2 (htold.received d hd)
  · refine List.eq_nil_iff_forall_not_mem.mpr fun p hp => ?_
    obtain ⟨-, control, -, hacting⟩ := hwired.rows p hp
    rw [hnone control] at hacting
    cases hacting
  · have hall : ∀ (events : List Event) (t : Tunnel), Wired t ∧ Told t ∧ Tracked t →
        StepsMeet step FreshId t events → StepsMeet step OwnReply t events →
          StepsMeet step FailsExactly t events := by
      intro events
      induction events with
      | nil =>
          intro t _ _ _
          trivial
      | cons e events ih =>
          rintro t ⟨hwired, htold, htracked⟩ hfresh hown
          refine ⟨failsExactly_of_tracked htracked hwired htold e, ih (step e t) ?_ hfresh.2 hown.2⟩
          exact ⟨wired_step hwired hfresh.1, told_step htold hwired e,
            tracked_step htracked hwired hfresh.1 hown.1⟩
    exact hall events {} ⟨hwired₀, htold₀, htracked₀⟩ hfresh hown

/-! ## Samples -/

namespace Sample

/-- The frame with this id that says that all went well. -/
def okFrame (requestId : String) : Frame :=
  .json (.object [("id", .string requestId), ("result", .object [("ok", .bool true)])])

/-- A control relays a click and receives the reply to it; it relays another one, and the
worker goes. -/
def answered : List Event :=
  [.attach 1 7, .openControl 1 7, .relay 1 "r", .sent 1, .frame 1 (okFrame "r") "", .receive 1,
    .replied 1, .relay 1 "s", .sent 1, .disconnect 1]

/-- Another worker replaces the first one, replies with the id of its action, and the first
one goes. -/
def replaced : List Event :=
  [.attach 1 7, .openControl 1 7, .relay 1 "r", .sent 1, .attach 2 7, .frame 2 (okFrame "r") "",
    .disconnect 1]

theorem ownReply_answered : StepsMeet step OwnReply {} answered := by
  have hframe : OwnReply (.frame 1 (okFrame "r") "") (runFrom step {} (answered.take 4)) := by
    intro session requestId reply _ _ p hp _
    have hworker : ∀ p ∈ (runFrom step {} (answered.take 4)).pending, p.worker = 1 := by decide
    exact hworker p hp
  exact ⟨trivial, trivial, trivial, trivial, hframe, trivial, trivial, trivial, trivial, trivial,
    trivial⟩

/-- The reply of the worker is received, once, and the action it has not answered when it
goes is failed. -/
theorem answered_once :
    (runFrom step {} answered).received = [(0, .ok)] ∧
      (∀ d ∈ (runFrom step {} answered).received, ∃ a,
        (runFrom step {} answered).actions[d.1]? = some a ∧
          (a.worker, a.requestId, d.2) ∈ (runFrom step {} answered).replies) ∧
      StepsMeet step FailsExactly {} answered ∧ (runFrom step {} answered).futures 1 = .failed := by
  obtain ⟨hreplies, -, -, hfails⟩ := replies_reach_their_request answered (by decide)
  exact ⟨by decide, hreplies, hfails ownReply_answered, by decide⟩

/-- The action of the first worker is neither answered nor failed. -/
theorem replaced_forgotten :
    StepsMeet step FreshId {} replaced ∧ ¬ StepsMeet step FailsExactly {} replaced := by
  refine ⟨by decide, fun hmeet => ?_⟩
  let t := runFrom step {} (replaced.take 6)
  have hlast : FailsExactly (.disconnect 1) t :=
    (@stepsMeet_append _ _ _ _ _ (replaced.take 6) [.disconnect 1] |>.mp hmeet).2.1
  have hunanswered : Unanswered t 0 := ⟨by decide, 1, Or.inr (by decide)⟩
  have hfailed := (hlast 1 7 (by decide) rfl 0 ⟨1, 7, "r", 1⟩ (by decide)).1
    ⟨hunanswered, rfl⟩
  exact absurd hfailed (by decide)

end Sample

end CrawlTrove.Sessions.OwnedSession
