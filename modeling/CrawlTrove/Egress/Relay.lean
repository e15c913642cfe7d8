import CrawlTrove.Artifacts.References

/-!
# A tunnel through the bridge and the egress agent

`MtlsConnectBridge._pump` (`app/acquisition/proxy.py`) and `EgressAgent._pump`
(`app/egress_agent.py`) once the `CONNECT` is answered. Each component runs one copy loop
for each direction; what the bridge writes up is what the agent reads up, and the other
way round. The loops are coroutines: an event is what one of them does between two
awaits, or what happens at an end of the tunnel, and events follow one another in any
order.
-/

namespace CrawlTrove.Egress.Relay

open Artifacts (Bytes)

/-! ## The parties -/

/-- `up` is from the client to the destination. -/
inductive Direction
  | up
  | down
deriving DecidableEq

inductive Component
  | bridge
  | agent
deriving DecidableEq

def Direction.opposite : Direction → Direction
  | .up => .down
  | .down => .up

/-- The component that reads what arrives in a direction. -/
def Direction.first : Direction → Component
  | .up => .bridge
  | .down => .agent

/-- The component that writes to the destination of a direction. -/
def Direction.last : Direction → Component
  | .up => .agent
  | .down => .bridge

/-- The limits `EgressAgent.__init__` lets through. -/
structure Limits where
  maxTunnelBytes : ℕ
  idleTimeout : ℚ
  bytes_pos : 0 < maxTunnelBytes
  idle_pos : 0 < idleTimeout

/-- `TUNNEL_BUFFER_BYTES`, and the buffer of the bridge. -/
def bufferBytes : ℕ := 64 * 1024

/-- Where a copy loop waits: in `read`, in `drain` (`whole` says that the budget let the
whole chunk through), or it has ended. -/
inductive Phase
  | reading
  | draining (whole : Bool)
  | stopped
deriving DecidableEq

/-- A copy loop, with the bytes it wrote so far. -/
structure Loop where
  taken : ℕ
  sent : Bytes
  phase : Phase
deriving DecidableEq

structure State where
  /-- What the source of a direction has sent. -/
  arrivals : Direction → Bytes
  /-- The source of a direction has ended its stream. -/
  ended : Direction → Bool
  loops : Component → Direction → Loop
  /-- `_ByteBudget.used`. -/
  used : ℕ
  now : ℚ
  /-- When the agent's loop of a direction began its read. -/
  since : Direction → ℚ
  /-- When bytes last moved anywhere in the tunnel. -/
  lastActive : ℚ
  /-- The destination of a direction failed. -/
  failed : Direction → Bool
  /-- A read timed out while nothing moved for the idle timeout. -/
  idled : Bool
  /-- A pump of the agent raised. -/
  raised : Bool
  /-- A component has closed both its writers. -/
  closed : Component → Bool

/-- The pumps at their start. -/
def start : State where
  arrivals _ := []
  ended _ := false
  loops _ _ := ⟨0, [], .reading⟩
  used := 0
  now := 0
  since _ := 0
  lastActive := 0
  failed _ := false
  idled := false
  raised := false
  closed _ := false

namespace State

/-- What the loop of a component reads in a direction. -/
def source (s : State) (c : Component) (d : Direction) : Bytes :=
  if c = d.first then s.arrivals d else (s.loops d.first d).sent

/-- No more will be read: the source has ended, or the component before has closed. -/
def sourceEnded (s : State) (c : Component) (d : Direction) : Bool :=
  if c = d.first then s.ended d else s.closed d.first

/-- What the destination of a direction was given. -/
def delivered (s : State) (d : Direction) : Bytes := (s.loops d.last d).sent

def hasStopped (s : State) (c : Component) (d : Direction) : Prop := (s.loops c d).phase = .stopped

instance (s : State) (c : Component) (d : Direction) : Decidable (s.hasStopped c d) :=
  inferInstanceAs (Decidable (_ = _))

def setLoop (s : State) (c : Component) (d : Direction) (loop : Loop) : State :=
  { s with loops := Function.update s.loops c (Function.update (s.loops c) d loop) }

/-- The loop ends. -/
def stop (s : State) (c : Component) (d : Direction) : State :=
  s.setLoop c d { s.loops c d with phase := .stopped }

/-- The component closes both its writers, and its loops end. -/
def shut (s : State) (c : Component) : State :=
  { s with
    loops := Function.update s.loops c fun d => { s.loops c d with phase := .stopped }
    closed := Function.update s.closed c true }

end State

/-! ## What happens -/

inductive Event
  /-- Bytes of the source of a direction, and the end of its stream. -/
  | arrive (d : Direction) (bytes : Bytes)
  | finish (d : Direction)
  | elapse (dt : ℚ)
  /-- A read returns `n` bytes, which are written. -/
  | chunk (c : Component) (d : Direction) (n : ℕ)
  /-- `drain` returns, or raises. -/
  | drained (c : Component) (d : Direction)
  | fails (c : Component) (d : Direction)
  /-- A read returns nothing, or raises. -/
  | eof (c : Component) (d : Direction)
  | readFails (c : Component) (d : Direction)
  /-- `asyncio.TimeoutError` in the agent. -/
  | timeout (d : Direction)
  /-- `task.cancel()` in the bridge. -/
  | cancel (d : Direction)
  /-- The handler of a component closes its writers. -/
  | close (c : Component)
deriving DecidableEq

variable (L : Limits)

/-- `_ByteBudget.consume` in the agent; the bridge lets everything through. -/
def allowance (s : State) (c : Component) (size : ℕ) : ℕ :=
  match c with
  | .bridge => size
  | .agent => min size (L.maxTunnelBytes - s.used)

/-- The budget after `allowed` bytes went through a component. -/
def spend (s : State) (c : Component) (allowed : ℕ) : ℕ :=
  match c with
  | .bridge => s.used
  | .agent => s.used + allowed

/-- A read returns. The agent's loop ends without a write if nothing is allowed. -/
def chunk (s : State) (c : Component) (d : Direction) (n : ℕ) : Option State :=
  let loop := s.loops c d
  let allowed := allowance L s c n
  if loop.phase = .reading ∧ 0 < n ∧ n ≤ bufferBytes ∧ loop.taken + n ≤ (s.source c d).length then
    some { s.setLoop c d
        { taken := loop.taken + n
          sent := loop.sent ++ ((s.source c d).drop loop.taken).take allowed
          phase := if allowed = 0 then .stopped else .draining (allowed = n) } with
      used := spend s c allowed
      lastActive := s.now }
  else none

/-- `drain` returns: the bridge reads on, the agent if the chunk went through whole and
the budget is not spent. -/
def drained (s : State) (c : Component) (d : Direction) : Option State :=
  match (s.loops c d).phase with
  | .draining whole =>
      if c = .bridge ∨ whole = true ∧ s.used < L.maxTunnelBytes then
        some { s.setLoop c d { s.loops c d with phase := .reading } with
          since := Function.update s.since d s.now }
      else some (s.stop c d)
  | _ => none

/-- `drain` raises. Between the components this is no failure of the destination when the
peer has closed. -/
def fails (s : State) (c : Component) (d : Direction) : Option State :=
  match (s.loops c d).phase with
  | .draining _ =>
      some { s.stop c d with
        failed := Function.update s.failed d
          (s.failed d || decide (c = d.last) || !s.closed d.last)
        raised := s.raised || decide (c = .agent) }
  | _ => none

/-- A read returns `b""`. The agent then calls `write_eof` on its writer: towards the
bridge that is a TLS transport, where it raises `NotImplementedError`. -/
def eof (s : State) (c : Component) (d : Direction) : Option State :=
  if (s.loops c d).phase = .reading ∧ (s.loops c d).taken = (s.source c d).length ∧
      s.sourceEnded c d = true then
    some { s.stop c d with raised := s.raised || decide (c = .agent ∧ d = .down) }
  else none

/-- A read raises what the connection was lost with, whatever is still in its buffer. The
agent catches no more than a timeout, the bridge nothing. -/
def readFails (s : State) (c : Component) (d : Direction) : Option State :=
  if (s.loops c d).phase = .reading then
    some { s.stop c d with raised := s.raised || decide (c = .agent) }
  else none

def timeout (s : State) (d : Direction) : Option State :=
  if (s.loops .agent d).phase = .reading ∧ L.idleTimeout ≤ s.now - s.since d then
    some { s.stop .agent d with
      idled := s.idled || decide (L.idleTimeout ≤ s.now - s.lastActive) }
  else none

/-- `asyncio.wait` has returned for the other loop, and this one is pending. -/
def cancel (s : State) (d : Direction) : Option State :=
  if s.hasStopped .bridge d.opposite ∧ ¬ s.hasStopped .bridge d then some (s.stop .bridge d) else none

/-- `gather` has returned, or raised in the agent. -/
def close (s : State) (c : Component) : Option State :=
  if s.closed c = false ∧
      (s.hasStopped c .up ∧ s.hasStopped c .down ∨ c = .agent ∧ s.raised = true) then
    some (s.shut c)
  else none

def step (s : State) : Event → Option State
  | .arrive d bytes =>
      if s.ended d = false ∧ bytes ≠ [] then
        some { s with
          arrivals := Function.update s.arrivals d (s.arrivals d ++ bytes)
          lastActive := s.now }
      else none
  | .finish d =>
      if s.ended d = false then some { s with ended := Function.update s.ended d true } else none
  | .elapse dt => if 0 ≤ dt then some { s with now := s.now + dt } else none
  | .chunk c d n => chunk L s c d n
  | .drained c d => drained L s c d
  | .fails c d => fails s c d
  | .eof c d => eof s c d
  | .readFails c d => readFails s c d
  | .timeout d => timeout L s d
  | .cancel d => cancel s d
  | .close c => close s c

/-! ## Relaying faithfully -/

/-- What may keep a byte from its destination: the budget is spent, the destination
failed, or the whole tunnel was idle. -/
def Excused (s : State) (d : Direction) : Prop :=
  L.maxTunnelBytes ≤ s.used ∨ s.failed d = true ∨ s.idled = true

/-- A loop of the direction has ended before everything received went through it. -/
def Left (s : State) (d : Direction) : Prop :=
  ∃ c, s.hasStopped c d ∧ (s.loops c d).sent ≠ s.arrivals d

/-- Some loop of the direction can take its next step. -/
def Moves (s : State) (d : Direction) : Prop :=
  ∃ c, (drained L s c d).isSome = true ∨ (chunk L s c d 1).isSome = true

structure Faithful (s : State) : Prop where
  delivers : ∀ d, s.delivered d <+: s.arrivals d
  budget : (s.loops .agent .up).sent.length + (s.loops .agent .down).sent.length ≤
    L.maxTunnelBytes
  /-- What is not delivered is excused or on its way. -/
  undelivered : ∀ d, s.delivered d ≠ s.arrivals d → Excused L s d ∨ ¬ Left s d ∧ Moves L s d

/-- The condition on a step: a loop whose read raises, or that is timed out, cancelled or
closed, has relayed all that was received so far, and nothing is received after it. -/
def Careful (s : State) : Event → Prop
  | .arrive d _ => Excused L s d ∨ ∀ c, ¬ s.hasStopped c d
  | .readFails c d => Excused L s d ∨ (s.loops c d).sent = s.arrivals d
  | .timeout d => L.idleTimeout ≤ s.now - s.lastActive ∨ Excused L s d ∨
      (s.loops .agent d).sent = s.arrivals d
  | .cancel d => Excused L s d ∨ (s.loops .bridge d).sent = s.arrivals d
  | .close .agent => ∀ d, s.hasStopped .agent d ∨ Excused L s d ∨
      (s.loops .agent d).sent = s.arrivals d
  | _ => True

/-- Every state of a run meets `P`. -/
def Throughout (P : State → Prop) (s : State) : List Event → Prop
  | [] => P s
  | e :: es => P s ∧ ∀ s' ∈ step L s e, Throughout P s' es

/-- Every step of a run meets the condition. -/
def CarefulRun (s : State) : List Event → Prop
  | [] => True
  | e :: es => ∀ s' ∈ step L s e, Careful L s e ∧ CarefulRun s' es

end CrawlTrove.Egress.Relay
