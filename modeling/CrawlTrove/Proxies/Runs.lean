import CrawlTrove.Lifecycle.RemoteActions
import CrawlTrove.Proxies.Pool

/-!
# Runs of the proxy pool

The core and the enrolled workers act on the pool one transaction at a time,
between transactions of the crawl store. What a transaction does to the state of
a node is said once: `nextState` from the failure it reports, the node it
registers or the node an operator revokes.
-/

namespace CrawlTrove.Proxies

open Relational Transaction

inductive PoolCall
  | mergeConfigured (configured : List ConfiguredProxy)
  | register (nodeId endpoint : String) (regions : List String)
      (credentialExpiresAt : Option Time)
  | heartbeat (nodeId : String)
  | markFailure (nodeId outcome : String) (cooldownSeconds offlineAfter : ℤ)
      (taskId token : Option Uuid)
  | select (configured : List ConfiguredProxy) (originKey : String) (region : Option String)
      (taskId token : Option Uuid)
  | recordConnectedIp (fence : Fence) (nodeId address : String)
  | releaseProxy (fence : Fence)
  | assignProxy (role : String) (fence : Fence) (originKey : String)
  | recordProxyIp (role : String) (fence : Fence) (nodeId : String) (address : Option Inet)
  | proxyFailure (role : String) (fence : Fence) (nodeId : String) (outcome : Option String)
      (cooldownSeconds offlineAfter : Option ℤ)
  | releaseRemote (role : String) (fence : Fence)
  /-- An operator revokes a node. -/
  | revoke (nodeId : String)
  /-- A transaction of the crawl store. -/
  | crawl (request : Request)

/-- A transaction of the pool with its time and locks. -/
structure PoolRequest where
  txn : PoolTxn
  call : PoolCall

/-! ## Sample calls -/

namespace Sample

/-- ASCII text, and no addresses. -/
def asciiTables : HostTables where
  lower := id
  nfkc := id
  ipAddress _ := none
  isSpace := Char.isWhitespace
  inet _ := v4 0 0 0 0 32

/-- A remote worker with the capability to use proxies. -/
def enrol : Request :=
  ⟨{ now := 0, uuid := fun n => n }, .environment
    ⟨[{ id := "edge", dbRole := "worker_edge", capabilities := ["http", "proxy"]
        protocolVersion := 1, state := .active, artifactBucket := "crawl"
        artifactPrefix := "workers/edge/" }], List.pairwise_singleton ..⟩ Table.empty⟩

def crawl (request : Request) : PoolRequest := ⟨{ now := request.txn.now }, .crawl request⟩

/-- A node registers at this second, for a day. -/
def register (second : ℤ) (nodeId endpoint : String) : PoolRequest :=
  ⟨{ now := seconds second }, .register nodeId endpoint [] none⟩

/-- The remote worker asks for a node for task 2, leased under token 11. -/
def assign (second : ℤ) : PoolRequest :=
  ⟨{ now := seconds second }, .assignProxy "worker_edge" ⟨2, 11⟩ "https://example.com:443"⟩

/-- The remote worker reports the first node. -/
def report (second : ℤ) (outcome : Option String) (offlineAfter : Option ℤ) : PoolRequest :=
  ⟨{ now := seconds second },
    .proxyFailure "worker_edge" ⟨2, 11⟩ "node-a" outcome (some 300) offlineAfter⟩

end Sample

/-! ## Steps -/

variable (tables : HostTables) (url : UrlIdentity)

/-- What a call does, and the id of the node it hands out. -/
def PoolCall.body (x : PoolTxn) : PoolCall → PoolTx (Option String)
  | .mergeConfigured configured => do
      attempt .integrityViolation (Proxies.mergeConfigured configured)
      return none
  | .register nodeId endpoint regions expiresAt =>
      (fun _ => none) <$> Proxies.register tables x nodeId endpoint regions expiresAt
  | .heartbeat nodeId => (fun _ => none) <$> Proxies.heartbeat x nodeId
  | .markFailure nodeId outcome cooldownSeconds offlineAfter taskId token =>
      (fun _ => none) <$>
        Proxies.markFailure x nodeId outcome cooldownSeconds offlineAfter taskId token
  | .select configured originKey region taskId token =>
      (Option.map Selection.nodeId) <$>
        Proxies.select x configured originKey region taskId token
  | .recordConnectedIp fence nodeId address =>
      (fun _ => none) <$> Proxies.recordConnectedIp tables x fence nodeId address
  | .releaseProxy fence => (fun _ => none) <$> Proxies.releaseProxy fence
  | .assignProxy role fence originKey =>
      (Option.map ProxyNode.id) <$> WorkerApi.assignProxy x role fence originKey
  | .recordProxyIp role fence nodeId address =>
      (fun _ => none) <$> WorkerApi.recordProxyIp x role fence nodeId address
  | .proxyFailure role fence nodeId outcome cooldownSeconds offlineAfter =>
      (fun _ => none) <$>
        WorkerApi.proxyFailure x role fence nodeId outcome cooldownSeconds offlineAfter
  | .releaseRemote role fence => (fun _ => none) <$> WorkerApi.releaseProxy role fence
  | .revoke nodeId => do
      exec (updateNodes (fun n => n.id = nodeId) fun n => { n with state := .revoked })
      return none
  | .crawl request => do
      exec fun p => { p with store := CrawlTrove.step url request p.store }
      return none

def step (r : PoolRequest) (p : Pool) : Pool := (commit (r.call.body tables url r.txn) p).2

/-- The node a call hands out. -/
def handsOut (r : PoolRequest) (p : Pool) : Option String :=
  match (commit (r.call.body tables url r.txn) p).1 with
  | .ok nodeId => nodeId
  | .error _ => none

def run (p : Pool) (calls : List PoolRequest) : Pool := runFrom (step tables url) p calls

/-! ## What a call does to the state of a node -/

/-- A failure a call reports, if it is not refused. `mark_failure` spares a
revoked node. -/
structure Failure where
  nodeId : String
  outcome : Option String
  offlineAfter : Option ℤ
  sparesRevoked : Bool
deriving DecidableEq

/-- The failure a call reports in this state. -/
def reported (r : PoolRequest) (p : Pool) : Option Failure :=
  match r.call with
  | .markFailure nodeId outcome cooldownSeconds offlineAfter taskId token =>
      let fence := taskId.bind fun taskId => token.map fun token => Fence.mk taskId token
      if (1 ≤ cooldownSeconds ∧ 1 ≤ offlineAfter) ∧ taskId.isSome = token.isSome ∧
          (outcome = "blocked" ∨ outcome = "transport") ∧
          fenced r.txn.now fence nodeId p = true then
        some ⟨nodeId, some outcome, some offlineAfter, true⟩
      else none
  | .proxyFailure role fence nodeId outcome cooldownSeconds offlineAfter =>
      match CrawlTrove.WorkerApi.identity role false p.store with
      | .ok (worker, _) =>
          if WorkerApi.failureRefused outcome cooldownSeconds offlineAfter = false ∧
              WorkerApi.reportable worker fence nodeId p = true then
            some ⟨nodeId, outcome, offlineAfter, false⟩
          else none
      | .error _ => none
  | _ => none

/-- The state a reported failure leaves its node in. -/
def Failure.next (f : Failure) (n : ProxyNode) : NodeState :=
  if f.sparesRevoked = true ∧ n.state = .revoked then n.state
  else if f.outcome = some "blocked" then .cooldown
  else if n.exhausts f.offlineAfter then .offline
  else n.state

/-- The node a call registers, if it commits. -/
def registered (r : PoolRequest) (p : Pool) : Option String :=
  match r.call with
  | .register nodeId endpoint regions expiresAt =>
      match Proxies.register tables r.txn nodeId endpoint regions expiresAt p with
      | .ok _ => some nodeId
      | .error _ => none
  | _ => none

/-- The node an operator revokes. -/
def revoked (r : PoolRequest) : Option String :=
  match r.call with
  | .revoke nodeId => some nodeId
  | _ => none

/-- The state of a node after a call. -/
def nextState (r : PoolRequest) (p : Pool) (n : ProxyNode) : NodeState :=
  if registered tables r p = some n.id then
    if n.state = .revoked then .revoked else .active
  else if revoked r = some n.id then .revoked
  else
    match reported r p with
    | some f => if f.nodeId = n.id then f.next n else n.state
    | none => n.state

/-! ## Rows of the pool -/

theorem node_eq_of_id {T : Table ProxyNode} {a b : ProxyNode} (ha : a ∈ T) (hb : b ∈ T)
    (h : a.id = b.id) : a = b :=
  Table.eq_of_clash ha hb (by simp [Clashes, Keyed.clash, Keyed.key, h])

theorem node?_eq_some {p : Pool} {id : String} {n : ProxyNode} :
    p.node? id = some n ↔ n ∈ p.nodes ∧ n.id = id := by
  constructor
  · intro h
    simpa using Table.find?_eq_some h
  · rintro ⟨hn, rfl⟩
    exact Table.find?_eq_of_mem hn (by simp) fun x hx hid =>
      node_eq_of_id hx hn (by simpa using hid)

theorem node?_self {p : Pool} {n : ProxyNode} (hn : n ∈ p.nodes) : p.node? n.id = some n :=
  node?_eq_some.mpr ⟨hn, rfl⟩

theorem node?_eq_none {p : Pool} {id : String} (h : p.node? id = none) {n : ProxyNode}
    (hn : n ∈ p.nodes) : n.id ≠ id := by
  rintro rfl
  rw [node?_self hn] at h
  cases h

/-- Every node of `p` is in `p'` in its next state, and a new node is active. -/
structure Moves (next : ProxyNode → NodeState) (p p' : Pool) : Prop where
  old : ∀ id n, p.node? id = some n → ∃ n', p'.node? id = some n' ∧ n'.state = next n
  new : ∀ id n', p.node? id = none → p'.node? id = some n' → n'.state = .active

namespace Moves

variable {next : ProxyNode → NodeState} {p p' p'' : Pool}

theorem of_nodes (h : p'.nodes = p.nodes) : Moves (·.state) p p' := by
  have hnode : ∀ id, p'.node? id = p.node? id := fun id => by rw [Pool.node?, Pool.node?, h]
  constructor
  · intro id n hn
    exact ⟨n, (hnode id).trans hn, rfl⟩
  · intro id n' hnone hn'
    rw [hnode, hnone] at hn'
    cases hn'

theorem refl : Moves (·.state) p p := of_nodes rfl

theorem trans (h : Moves (·.state) p p') (h' : Moves (·.state) p' p'') :
    Moves (·.state) p p'' := by
  constructor
  · intro id n hn
    obtain ⟨n', hn', hstate⟩ := h.old id n hn
    obtain ⟨n'', hn'', hstate'⟩ := h'.old id n' hn'
    exact ⟨n'', hn'', hstate'.trans hstate⟩
  · intro id n'' hnone hn''
    cases hmid : p'.node? id with
    | none => exact h'.new id n'' hmid hn''
    | some n' =>
        obtain ⟨m, hm, hstate⟩ := h'.old id n' hmid
        obtain rfl : m = n'' := Option.some.inj (hm.symm.trans hn'')
        exact hstate.trans (h.new id n' hnone hmid)

theorem congr {next' : ProxyNode → NodeState} (h : Moves next p p')
    (hnext : ∀ n ∈ p.nodes, next' n = next n) : Moves next' p p' := by
  refine ⟨?_, h.new⟩
  intro id n hn
  obtain ⟨n', hn', hstate⟩ := h.old id n hn
  exact ⟨n', hn', hstate.trans (hnext n (node?_eq_some.mp hn).1).symm⟩

theorem update {q : ProxyNode → Bool} {f : ProxyNode → ProxyNode}
    (hf : ∀ r, Keyed.key (f r) = Keyed.key r)
    (hnext : ∀ n ∈ p.nodes, (if q n then f n else n).state = next n) :
    Moves next p (updateNodes q f p hf) := by
  have hid : ∀ n : ProxyNode, (if q n then f n else n).id = n.id := by
    intro n
    split
    · exact congrArg Prod.fst (hf n)
    · rfl
  constructor
  · intro id n hn
    obtain ⟨hmem, rfl⟩ := node?_eq_some.mp hn
    refine ⟨if q n then f n else n, node?_eq_some.mpr ⟨?_, hid n⟩, hnext n hmem⟩
    show _ ∈ p.nodes.update q f hf
    exact Table.mem_update.mpr ⟨n, hmem, rfl⟩
  · intro id n' hnone hn'
    obtain ⟨hafter, rfl⟩ := node?_eq_some.mp hn'
    change n' ∈ p.nodes.update q f hf at hafter
    obtain ⟨n, hmem, rfl⟩ := Table.mem_update.mp hafter
    exact absurd (hid n).symm (node?_eq_none hnone hmem)

theorem insert {n : ProxyNode} (hnew : p.node? n.id = none) (hstate : n.state = .active)
    (h : insertNode n p = some p') : Moves (·.state) p p' := by
  obtain ⟨T, hT, rfl⟩ := Option.map_eq_some_iff.mp h
  have hmem : ∀ x, x ∈ T ↔ x ∈ p.nodes ∨ x = n := fun x => Table.mem_of_insert? hT
  constructor
  · intro id m hm
    obtain ⟨hold, rfl⟩ := node?_eq_some.mp hm
    exact ⟨m, node?_eq_some.mpr ⟨(hmem m).mpr (Or.inl hold), rfl⟩, rfl⟩
  · intro id n' hnone hn'
    obtain ⟨hafter, rfl⟩ := node?_eq_some.mp hn'
    rcases (hmem n').mp hafter with hold | rfl
    · exact absurd rfl (node?_eq_none hnone hold)
    · exact hstate

theorem upsert {n m : ProxyNode} (h : upsertNode n p = some p') (hm : p.node? n.id = some m)
    (hstate : n.state = next m) (hnext : ∀ x ∈ p.nodes, x.id ≠ n.id → next x = x.state) :
    Moves next p p' := by
  obtain ⟨T, hT, rfl⟩ := Option.map_eq_some_iff.mp h
  have hmem : ∀ x, x ∈ T ↔ (x ∈ p.nodes ∧ x.id ≠ n.id) ∨ x = n := by
    intro x
    simpa using Table.mem_of_upsert? hT
  constructor
  · intro id x hx
    obtain ⟨hold, rfl⟩ := node?_eq_some.mp hx
    by_cases hid : x.id = n.id
    · rw [← hid, hx] at hm
      cases hm
      exact ⟨n, node?_eq_some.mpr ⟨(hmem n).mpr (Or.inr rfl), hid.symm⟩, hstate⟩
    · exact ⟨x, node?_eq_some.mpr ⟨(hmem x).mpr (Or.inl ⟨hold, hid⟩), rfl⟩,
        (hnext x hold hid).symm⟩
  · intro id n' hnone hn'
    obtain ⟨hafter, rfl⟩ := node?_eq_some.mp hn'
    rcases (hmem n').mp hafter with ⟨hold, -⟩ | rfl
    · exact absurd rfl (node?_eq_none hnone hold)
    · rw [hnone] at hm
      cases hm

end Moves

/-! ## The calls that keep every state -/

theorem mergeEntry_moves {entry : ConfiguredProxy} {p p' : Pool}
    (h : mergeEntry entry p = some p') : Moves (·.state) p p' := by
  unfold mergeEntry at h
  cases hfound : p.node? entry.id with
  | none =>
      rw [hfound] at h
      exact Moves.insert hfound rfl h
  | some n =>
      simp only [hfound] at h
      split at h
      · cases h
        exact Moves.refl
      · exact Moves.upsert h (node?_eq_some.mpr ⟨(node?_eq_some.mp hfound).1, rfl⟩) rfl
          fun _ _ _ => rfl

theorem mergeConfigured_moves {configured : List ConfiguredProxy} {p p' : Pool}
    (h : mergeConfigured configured p = some p') : Moves (·.state) p p' := by
  induction configured generalizing p with
  | nil =>
      cases h
      exact Moves.refl
  | cons entry entries ih =>
      obtain ⟨p₁, h₁, h⟩ := Option.bind_eq_some_iff.mp h
      exact (mergeEntry_moves h₁).trans (ih h)

theorem identity_ok {role : String} {draining : Bool} {p p' : Pool} {w : Worker}
    (h : onStore (CrawlTrove.WorkerApi.identity role draining) p = .ok (w, p')) :
    p' = p ∧ CrawlTrove.WorkerApi.identity role draining p.store = .ok (w, p.store) := by
  unfold onStore at h
  cases hid : CrawlTrove.WorkerApi.identity role draining p.store with
  | error e => simp [hid] at h
  | ok r =>
      obtain ⟨v, s⟩ := r
      obtain rfl := Lifecycle.identity_ok hid
      simp only [hid, Except.ok.injEq, Prod.mk.injEq] at h
      obtain ⟨rfl, rfl⟩ := h
      exact ⟨rfl, rfl⟩

theorem handOut_ok {x : PoolTxn} {configured : List ConfiguredProxy} {originKey : String}
    {fence : Option Fence} {node : ProxyNode} {r : Option Selection} {p p' : Pool}
    (h : handOut x configured originKey fence node p = .ok (r, p')) :
    p' = p ∧ ∃ selection, r = some selection ∧ selection.nodeId = node.id ∧
      selection.fence = fence := by
  simp only [handOut] at h
  cases hsecrets : (configured.find? fun entry => entry.id = node.id).elim
      (.ok (none, false)) x.secrets with
  | error message => simp [hsecrets] at h
  | ok secrets =>
      simp only [hsecrets] at h
      obtain ⟨rfl, rfl⟩ := pure_ok.mp h
      exact ⟨rfl, _, rfl, rfl, rfl⟩

/-- Some attempt of the task with this number is open. -/
def attemptOpen (fence : Fence) (attemptCount : ℤ) (p : Pool) : Bool :=
  p.store.attempts.any fun a =>
    a.taskId = fence.taskId && a.attemptNumber = attemptCount && a.finishedAt.isNone

/-- The row a selection inserts for its task. -/
def leaseRow (x : PoolTxn) (fence : Fence) (originKey nodeId : String) : ProxyLease where
  nodeId
  taskId := fence.taskId
  originKey
  leaseToken := fence.token
  expiresAt := x.now + seconds 120

theorem insertLeaseOnce_nodes (l : ProxyLease) (p : Pool) :
    (insertLeaseOnce l p).nodes = p.nodes := by
  unfold insertLeaseOnce insertLease
  cases p.store.proxyLeases.insert? l <;> rfl

theorem insertLeaseOnce_attempts (l : ProxyLease) (p : Pool) :
    (insertLeaseOnce l p).store.attempts = p.store.attempts := by
  unfold insertLeaseOnce insertLease
  cases p.store.proxyLeases.insert? l <;> rfl

theorem bindLease_ok {x : PoolTxn} {fence : Fence} {originKey nodeId : String}
    {attemptCount : ℤ} {b : Bool} {p p' : Pool}
    (h : bindLease x fence originKey nodeId attemptCount p = .ok (b, p')) :
    p'.nodes = p.nodes ∧ b = attemptOpen fence attemptCount p ∧
      (b = true → p' = insertLeaseOnce (leaseRow x fence originKey nodeId) p) := by
  simp only [bindLease, bind_ok, exec_ok, read_ok] at h
  obtain ⟨_, _, rfl, assigned, _, ⟨hassigned, rfl⟩, h⟩ := h
  rw [insertLeaseOnce_attempts] at hassigned
  cases assigned with
  | true =>
      obtain ⟨rfl, rfl⟩ := pure_ok.mp h
      exact ⟨insertLeaseOnce_nodes _ p, hassigned.symm, fun _ => rfl⟩
  | false =>
      simp only [Bool.false_eq_true, if_false, bind_ok, exec_ok, pure_ok] at h
      obtain ⟨_, _, rfl, rfl, rfl⟩ := h
      refine ⟨insertLeaseOnce_nodes _ p, hassigned.symm, ?_⟩
      intro hb
      cases hb

/-- The fence of a call, when both its parts are given. -/
def fenceOf (taskId token : Option Uuid) : Option Fence :=
  taskId.bind fun taskId => token.map fun token => ⟨taskId, token⟩

/-- The pool a selection chooses from: the configuration is merged and expired
leases are gone. -/
def Chooses (x : PoolTxn) (configured : List ConfiguredProxy) (p q : Pool) : Prop :=
  ∃ merged, mergeConfigured configured p = some merged ∧
    q = deleteLeases (fun l => decide (l.expiresAt ≤ x.now)) merged

/-- All a committed selection does. -/
theorem select_cases {x : PoolTxn} {configured : List ConfiguredProxy} {originKey : String}
    {region : Option String} {taskId token : Option Uuid} {r : Option Selection} {p p' : Pool}
    (h : select x configured originKey region taskId token p = .ok (r, p')) :
    ∃ q, Chooses x configured p q ∧ p'.nodes = q.nodes ∧
      ∀ selection, r = some selection →
        selection.fence = fenceOf taskId token ∧
        ∃ node, q.first x region = some node ∧ node.id = selection.nodeId ∧
          ∀ fence, selection.fence = some fence →
            (fencedTask fence q).isSome = true ∧
              p' = insertLeaseOnce (leaseRow x fence originKey node.id) q := by
  unfold select at h
  split at h
  · simp at h
  · split at h
    · simp at h
    · split at h
      · simp at h
      · simp only [bind_ok, attempt_ok, exec_ok] at h
        obtain ⟨_, merged, hmerged, _, _, rfl, h⟩ := h
        refine ⟨_, ⟨merged, hmerged, rfl⟩, ?_⟩
        cases hfence : fenceOf taskId token with
        | none =>
            simp only [fenceOf] at hfence
            simp only [hfence, bind_ok, read_ok] at h
            obtain ⟨found, _, ⟨hfound, rfl⟩, h⟩ := h
            cases found with
            | none =>
                obtain ⟨rfl, rfl⟩ := pure_ok.mp h
                exact ⟨rfl, by simp⟩
            | some node =>
                obtain ⟨rfl, selection, rfl, hid, hsel⟩ := handOut_ok h
                refine ⟨rfl, ?_⟩
                rintro _ ⟨⟩
                refine ⟨hsel, node, hfound, hid.symm, ?_⟩
                intro fence hfence'
                rw [hsel] at hfence'
                cases hfence'
        | some fence =>
            simp only [fenceOf] at hfence
            simp only [hfence, bind_ok, read_ok] at h
            obtain ⟨task, _, ⟨htask, rfl⟩, h⟩ := h
            cases task with
            | none =>
                obtain ⟨rfl, rfl⟩ := pure_ok.mp h
                exact ⟨rfl, by simp⟩
            | some task =>
                simp only [bind_ok, read_ok] at h
                obtain ⟨found, _, ⟨hfound, rfl⟩, h⟩ := h
                cases found with
                | none =>
                    obtain ⟨rfl, rfl⟩ := pure_ok.mp h
                    exact ⟨rfl, by simp⟩
                | some node =>
                    simp only [bind_ok] at h
                    obtain ⟨b, p₁, hb, h⟩ := h
                    obtain ⟨hnodes, -, hinsert⟩ := bindLease_ok hb
                    cases b with
                    | false =>
                        obtain ⟨rfl, rfl⟩ := pure_ok.mp h
                        exact ⟨hnodes, by simp⟩
                    | true =>
                        obtain ⟨rfl, selection, rfl, hid, hsel⟩ := handOut_ok h
                        refine ⟨hnodes, ?_⟩
                        rintro _ ⟨⟩
                        refine ⟨hsel, node, hfound, hid.symm, ?_⟩
                        intro fence' hfence'
                        rw [hsel] at hfence'
                        cases hfence'
                        exact ⟨by rw [htask]; rfl, hinsert rfl⟩

theorem first_eq_some {x : PoolTxn} {region : Option String} {n : ProxyNode} {p : Pool}
    (h : p.first x region = some n) : n ∈ p.nodes ∧ n.free x region = true := by
  have hmem := List.mem_of_mem_head? h
  rw [List.mem_insertionSort] at hmem
  exact Table.mem_select.mp hmem

/-- All a committed assignment does. -/
theorem assignProxy_cases {x : PoolTxn} {role : String} {fence : Fence} {originKey : String}
    {r : Option ProxyNode} {p p' : Pool}
    (h : WorkerApi.assignProxy x role fence originKey p = .ok (r, p')) :
    p'.nodes = p.nodes ∧ ∀ n, r = some n → n ∈ p.nodes ∧ n.free x none = true := by
  simp only [WorkerApi.assignProxy, bind_ok] at h
  obtain ⟨worker, p₁, hworker, h⟩ := h
  obtain ⟨rfl, -⟩ := identity_ok hworker
  split at h
  · simp at h
  · simp only [bind_ok, read_ok] at h
    obtain ⟨task, _, ⟨-, rfl⟩, h⟩ := h
    cases task with
    | none =>
        obtain ⟨rfl, rfl⟩ := pure_ok.mp h
        exact ⟨rfl, by simp⟩
    | some f =>
        simp only [bind_ok, exec_ok, read_ok] at h
        obtain ⟨_, _, rfl, found, _, ⟨hfound, rfl⟩, h⟩ := h
        cases found with
        | none =>
            obtain ⟨rfl, rfl⟩ := pure_ok.mp h
            exact ⟨rfl, by simp⟩
        | some node =>
            simp only [bind_ok, attempt_ok, pure_ok] at h
            obtain ⟨_, p₂, hinsert, rfl, rfl⟩ := h
            obtain ⟨T, -, rfl⟩ := Option.map_eq_some_iff.mp hinsert
            refine ⟨rfl, ?_⟩
            rintro _ ⟨⟩
            have hfirst := first_eq_some hfound
            exact hfirst

/-- A failure report of the core, committed. -/
theorem failNode_moves {now : Time} {nodeId : String} {fence : Option Fence}
    {f : ProxyNode → ProxyNode} {hf : ∀ r, Keyed.key (f r) = Keyed.key r}
    {next : ProxyNode → NodeState} {b : Bool} {p p' : Pool}
    (hnext : ∀ n ∈ p.nodes, next n =
      if n.id = nodeId ∧ n.state ≠ .revoked ∧ fenced now fence nodeId p = true then (f n).state
      else n.state)
    (h : failNode now nodeId fence f hf p = .ok (b, p')) : Moves next p p' := by
  simp only [failNode, bind_ok, read_ok, exec_ok, pure_ok] at h
  obtain ⟨_, _, ⟨rfl, rfl⟩, _, _, ⟨-, rfl⟩, _, _, rfl, -, rfl⟩ := h
  refine Moves.update hf ?_
  intro n hn
  rw [hnext n hn]
  simp only [Bool.and_eq_true, decide_eq_true_eq, and_assoc]
  split <;> rfl

/-- A call that reports a failure does nothing else. -/
theorem quiet_of_reported {r : PoolRequest} {p : Pool} {f : Failure}
    (h : reported r p = some f) : registered tables r p = none ∧ revoked r = none := by
  obtain ⟨x, call⟩ := r
  cases call with
  | markFailure => exact ⟨rfl, rfl⟩
  | proxyFailure => exact ⟨rfl, rfl⟩
  | _ => cases h

/-- A call that registers and revokes nothing acts by the failure it reports. -/
theorem nextState_eq {r : PoolRequest} {p : Pool} (hregistered : registered tables r p = none)
    (hrevoked : revoked r = none) (n : ProxyNode) :
    nextState tables r p n =
      match reported r p with
      | some f => if f.nodeId = n.id then f.next n else n.state
      | none => n.state := by
  simp only [nextState, hregistered, hrevoked, reduceCtorEq, if_false]

/-- A call that reports no failure either keeps every state. -/
theorem nextState_quiet {r : PoolRequest} {p : Pool} (hregistered : registered tables r p = none)
    (hrevoked : revoked r = none) (hreported : reported r p = none) (n : ProxyNode) :
    nextState tables r p n = n.state := by
  rw [nextState_eq tables hregistered hrevoked, hreported]

/-- `mark_failure` leaves the state `Failure.next` says. -/
theorem Failure.next_spares {nodeId outcome : String} {offlineAfter : ℤ} {n : ProxyNode} :
    (Failure.mk nodeId (some outcome) (some offlineAfter) true).next n =
      if n.state ≠ .revoked then
        if outcome = "blocked" then .cooldown else (n.unreachable (some offlineAfter)).state
      else n.state := by
  simp only [Failure.next, ProxyNode.unreachable, true_and, ne_eq, ite_not, Option.some.injEq]

theorem markFailure_moves {x : PoolTxn} {nodeId outcome : String} {cooldownSeconds offlineAfter : ℤ}
    {taskId token : Option Uuid} {b : Bool} {p p' : Pool}
    (h : markFailure x nodeId outcome cooldownSeconds offlineAfter taskId token p = .ok (b, p')) :
    Moves (nextState tables
      ⟨x, .markFailure nodeId outcome cooldownSeconds offlineAfter taskId token⟩ p) p p' := by
  unfold markFailure at h
  split at h
  · simp at h
  · rename_i hthresholds
    split at h
    · simp at h
    · rename_i hsome
      have hpositive : 1 ≤ cooldownSeconds ∧ 1 ≤ offlineAfter := by omega
      have hboth : taskId.isSome = token.isSome := not_not.mp hsome
      have hreported : ∀ houtcome : outcome = "blocked" ∨ outcome = "transport",
          reported ⟨x, .markFailure nodeId outcome cooldownSeconds offlineAfter taskId token⟩ p =
            if fenced x.now (fenceOf taskId token) nodeId p = true then
              some ⟨nodeId, some outcome, some offlineAfter, true⟩ else none := by
        intro houtcome
        simp only [reported, hpositive, hboth, houtcome, true_and, and_self]
        rfl
      -- a fenced report changes the named node only, and never a revoked one
      have hnext : ∀ (houtcome : outcome = "blocked" ∨ outcome = "transport") (n : ProxyNode),
          nextState tables
              ⟨x, .markFailure nodeId outcome cooldownSeconds offlineAfter taskId token⟩ p n =
            if n.id = nodeId ∧ n.state ≠ .revoked ∧
                fenced x.now (fenceOf taskId token) nodeId p = true then
              if outcome = "blocked" then .cooldown else (n.unreachable (some offlineAfter)).state
            else n.state := by
        intro houtcome n
        rw [nextState_eq tables rfl rfl, hreported houtcome]
        by_cases hfenced : fenced x.now (fenceOf taskId token) nodeId p = true
        · by_cases hid : n.id = nodeId
          · simp [hfenced, hid, Failure.next_spares]
          · simp [hfenced, hid, Ne.symm hid]
        · simp [hfenced]
      dsimp only at h
      split at h
      · rename_i houtcome
        refine failNode_moves ?_ h
        intro n _
        rw [hnext (Or.inl houtcome), if_pos houtcome]
        rfl
      · rename_i hother
        split at h
        · rename_i houtcome
          refine failNode_moves ?_ h
          intro n _
          rw [hnext (Or.inr houtcome), if_neg hother]
          rfl
        · simp at h

theorem proxyFailure_moves {x : PoolTxn} {role nodeId : String} {fence : Fence}
    {outcome : Option String} {cooldownSeconds offlineAfter : Option ℤ} {b : Bool} {p p' : Pool}
    (h : WorkerApi.proxyFailure x role fence nodeId outcome cooldownSeconds offlineAfter p =
      .ok (b, p')) :
    Moves (nextState tables
      ⟨x, .proxyFailure role fence nodeId outcome cooldownSeconds offlineAfter⟩ p) p p' := by
  simp only [WorkerApi.proxyFailure, bind_ok] at h
  obtain ⟨worker, p₁, hworker, h⟩ := h
  obtain ⟨rfl, hidentity⟩ := identity_ok hworker
  split at h
  · simp at h
  · rename_i hvalid
    have haccepted := Bool.eq_false_iff.mpr hvalid
    simp only [bind_ok, read_ok, exec_ok, pure_ok] at h
    obtain ⟨held, _, ⟨rfl, rfl⟩, _, _, ⟨-, rfl⟩, _, _, rfl, -, rfl⟩ := h
    refine Moves.update _ ?_
    intro n hn
    -- here a revoked node is not spared
    have hreported : reported ⟨x, .proxyFailure role fence nodeId outcome cooldownSeconds
        offlineAfter⟩ p₁ =
          if WorkerApi.reportable worker fence nodeId p₁ = true then
            some ⟨nodeId, outcome, offlineAfter, false⟩ else none := by
      simp only [reported, hidentity, haccepted, true_and]
    rw [nextState_eq tables rfl rfl, hreported]
    by_cases hheld : WorkerApi.reportable worker fence nodeId p₁ = true
    · by_cases hid : n.id = nodeId
      · by_cases hblocked : outcome = some "blocked" <;>
          simp [hheld, hid, hblocked, Failure.next, ProxyNode.blocked, ProxyNode.unreachable]
      · simp [hheld, hid, Ne.symm hid]
    · simp [hheld]

theorem registerNode_moves {now : Time} {nodeId endpoint : String} {regions : List String}
    {expiresAt : Time} {p p' : Pool}
    (h : registerNode now nodeId endpoint regions expiresAt p = some p') :
    Moves (fun n =>
      if n.id = nodeId then if n.state = .revoked then .revoked else .active else n.state) p p' := by
  unfold registerNode at h
  cases hfound : p.node? nodeId with
  | none =>
      rw [hfound] at h
      refine (Moves.insert hfound rfl h).congr ?_
      intro n hn
      exact if_neg (node?_eq_none hfound hn)
  | some m =>
      simp only [hfound] at h
      obtain ⟨hm, hid⟩ := node?_eq_some.mp hfound
      refine Moves.upsert h (node?_eq_some.mpr ⟨hm, rfl⟩) ?_ ?_
      · exact (if_pos hid).symm
      · intro n _ hne
        exact if_neg fun heq => hne (heq.trans hid.symm)

theorem register_ok {x : PoolTxn} {nodeId endpoint : String} {regions : List String}
    {expiresAt : Option Time} {p p' : Pool} {u : PUnit}
    (h : register tables x nodeId endpoint regions expiresAt p = .ok (u, p')) :
    ∃ authority, registerNode x.now nodeId authority regions
      (expiresAt.getD (x.now + seconds 86400)) p = some p' := by
  unfold register at h
  split at h
  · simp at h
  · split at h
    · simp at h
    · cases hauthority : normalEndpoint tables endpoint false with
      | error message => simp [hauthority] at h
      | ok authority =>
          simp only [hauthority] at h
          split at h
          · simp at h
          · exact ⟨authority, attempt_ok.mp h⟩

theorem step_of_ok {r : PoolRequest} {p p' : Pool} {a : Option String}
    (h : r.call.body tables url r.txn p = .ok (a, p')) : step tables url r p = p' := by
  unfold step
  rw [commit_of_ok h]

theorem step_of_error {r : PoolRequest} {p : Pool} {e : DbError}
    (h : r.call.body tables url r.txn p = .error e) : step tables url r p = p := by
  unfold step
  rw [commit_of_error h]

theorem register_moves (x : PoolTxn) (nodeId endpoint : String) (regions : List String)
    (expiresAt : Option Time) (p : Pool) :
    Moves (nextState tables ⟨x, .register nodeId endpoint regions expiresAt⟩ p) p
      (step tables url ⟨x, .register nodeId endpoint regions expiresAt⟩ p) := by
  cases hreg : register tables x nodeId endpoint regions expiresAt p with
  | error e =>
      rw [step_of_error tables url (map_run_error hreg)]
      refine Moves.refl.congr ?_
      intro n _
      exact nextState_quiet tables (by simp [registered, hreg]) rfl rfl n
  | ok r =>
      obtain ⟨u, p'⟩ := r
      rw [step_of_ok tables url (map_run_ok hreg)]
      obtain ⟨authority, hnode⟩ := register_ok tables hreg
      refine (registerNode_moves hnode).congr ?_
      intro n _
      have hregistered : registered tables ⟨x, .register nodeId endpoint regions expiresAt⟩ p =
          some nodeId := by simp [registered, hreg]
      simp only [nextState, hregistered, Option.some.injEq, eq_comm (a := nodeId)]
      rfl

/-- A failure report that raises reports nothing. -/
theorem reported_of_raised {r : PoolRequest} {p : Pool} {e : DbError}
    (h : r.call.body tables url r.txn p = .error e) : reported r p = none := by
  obtain ⟨x, call⟩ := r
  cases call with
  | markFailure nodeId outcome cooldownSeconds offlineAfter taskId token =>
      simp only [reported]
      split
      · rename_i hok
        obtain ⟨⟨hcooldown, hoffline⟩, hboth, houtcome, -⟩ := hok
        have hthresholds : ¬ (cooldownSeconds < 1 ∨ offlineAfter < 1) := by omega
        have hne : ¬ taskId.isSome ≠ token.isSome := not_not.mpr hboth
        simp only [PoolCall.body, markFailure, if_neg hthresholds, if_neg hne] at h
        by_cases hblocked : outcome = "blocked"
        · rw [if_pos hblocked] at h
          cases h
        · rw [if_neg hblocked, if_pos (houtcome.resolve_left hblocked)] at h
          cases h
      · rfl
  | proxyFailure role fence nodeId outcome cooldownSeconds offlineAfter =>
      simp only [reported]
      cases hidentity : CrawlTrove.WorkerApi.identity role false p.store with
      | error e => rfl
      | ok a =>
          obtain ⟨worker, s⟩ := a
          dsimp only
          split
          · rename_i hok
            have hvalid : ¬ WorkerApi.failureRefused outcome cooldownSeconds offlineAfter = true := by
              rw [hok.1]
              exact Bool.false_ne_true
            have hstore : onStore (CrawlTrove.WorkerApi.identity role false) p =
                .ok (worker, { p with store := s }) := by simp [onStore, hidentity]
            simp only [PoolCall.body, WorkerApi.proxyFailure] at h
            rw [map_run_ok (by rw [bind_run_ok hstore, if_neg hvalid]; rfl)] at h
            cases h
          · rfl
  | _ => rfl

theorem recordConnectedIp_moves {x : PoolTxn} {fence : Fence} {nodeId address : String} {b : Bool}
    {p p' : Pool} (h : recordConnectedIp tables x fence nodeId address p = .ok (b, p')) :
    Moves (·.state) p p' := by
  unfold recordConnectedIp at h
  cases hparsed : tables.ipAddress address.toList with
  | none =>
      simp only [hparsed] at h
      obtain ⟨-, rfl⟩ := pure_ok.mp h
      exact Moves.refl
  | some parsed =>
      simp only [hparsed] at h
      split at h
      · obtain ⟨-, rfl⟩ := pure_ok.mp h
        exact Moves.refl
      · simp only [bind_ok, read_ok, exec_ok, pure_ok] at h
        obtain ⟨_, _, ⟨-, rfl⟩, _, _, ⟨-, rfl⟩, _, _, rfl, -, rfl⟩ := h
        refine Moves.update _ ?_
        intro n _
        split <;> rfl

theorem recordProxyIp_moves {x : PoolTxn} {role nodeId : String} {fence : Fence}
    {address : Option Inet} {b : Bool} {p p' : Pool}
    (h : WorkerApi.recordProxyIp x role fence nodeId address p = .ok (b, p')) :
    Moves (·.state) p p' := by
  simp only [WorkerApi.recordProxyIp, bind_ok] at h
  obtain ⟨worker, p₁, hworker, h⟩ := h
  obtain ⟨rfl, -⟩ := identity_ok hworker
  cases address with
  | none =>
      obtain ⟨-, rfl⟩ := pure_ok.mp h
      exact Moves.refl
  | some address =>
      simp only at h
      split at h
      · obtain ⟨-, rfl⟩ := pure_ok.mp h
        exact Moves.refl
      · simp only [bind_ok, read_ok, exec_ok, pure_ok] at h
        obtain ⟨_, _, ⟨-, rfl⟩, _, _, ⟨-, rfl⟩, _, _, rfl, -, rfl⟩ := h
        refine Moves.update _ ?_
        intro n _
        split <;> rfl

/-- A call whose body keeps every state, and that registers, revokes and reports
nothing. -/
theorem step_quiet {r : PoolRequest} {p : Pool} (hregistered : registered tables r p = none)
    (hrevoked : revoked r = none) (hreported : reported r p = none)
    (h : ∀ a p', r.call.body tables url r.txn p = .ok (a, p') → Moves (·.state) p p') :
    Moves (nextState tables r p) p (step tables url r p) := by
  have hmoves : Moves (·.state) p (step tables url r p) := commit_snd Moves.refl h
  refine hmoves.congr ?_
  intro n _
  exact nextState_quiet tables hregistered hrevoked hreported n

/-- A call that can only report a failure. -/
theorem step_reports {r : PoolRequest} {p : Pool} (hregistered : registered tables r p = none)
    (hrevoked : revoked r = none)
    (h : ∀ a p', r.call.body tables url r.txn p = .ok (a, p') →
      Moves (nextState tables r p) p p') :
    Moves (nextState tables r p) p (step tables url r p) := by
  cases hbody : r.call.body tables url r.txn p with
  | ok a =>
      obtain ⟨a, p'⟩ := a
      rw [step_of_ok tables url hbody]
      exact h a p' hbody
  | error e =>
      rw [step_of_error tables url hbody]
      refine Moves.refl.congr ?_
      intro n _
      exact nextState_quiet tables hregistered hrevoked (reported_of_raised tables url hbody) n

/-- What a transaction does to the states of the nodes. -/
theorem step_moves (r : PoolRequest) (p : Pool) :
    Moves (nextState tables r p) p (step tables url r p) := by
  obtain ⟨x, call⟩ := r
  cases call with
  | mergeConfigured configured =>
      refine step_quiet tables url rfl rfl rfl ?_
      intro a p' h
      simp only [PoolCall.body, bind_ok, attempt_ok, pure_ok] at h
      obtain ⟨_, _, h, -, rfl⟩ := h
      exact mergeConfigured_moves h
  | register nodeId endpoint regions expiresAt =>
      exact register_moves tables url x nodeId endpoint regions expiresAt p
  | heartbeat nodeId =>
      refine step_quiet tables url rfl rfl rfl ?_
      intro a p' h
      simp only [PoolCall.body, map_ok, heartbeat, bind_ok, read_ok, exec_ok, pure_ok] at h
      obtain ⟨_, ⟨_, _, ⟨-, rfl⟩, _, _, rfl, -, rfl⟩, -⟩ := h
      refine Moves.update _ ?_
      intro n _
      split <;> rfl
  | markFailure nodeId outcome cooldownSeconds offlineAfter taskId token =>
      exact step_reports tables url rfl rfl fun a p' h => by
        obtain ⟨b, hrun, -⟩ := map_ok.mp h
        exact markFailure_moves tables hrun
  | select configured originKey region taskId token =>
      refine step_quiet tables url rfl rfl rfl ?_
      intro a p' h
      obtain ⟨r, hrun, -⟩ := map_ok.mp h
      obtain ⟨q, ⟨merged, hmerged, rfl⟩, hnodes, -⟩ := select_cases hrun
      exact (mergeConfigured_moves hmerged).trans (Moves.of_nodes hnodes)
  | recordConnectedIp fence nodeId address =>
      refine step_quiet tables url rfl rfl rfl ?_
      intro a p' h
      obtain ⟨b, hrun, -⟩ := map_ok.mp h
      exact recordConnectedIp_moves tables hrun
  | releaseProxy fence =>
      refine step_quiet tables url rfl rfl rfl ?_
      intro a p' h
      simp only [PoolCall.body, map_ok, releaseProxy, exec_ok] at h
      obtain ⟨_, rfl, -⟩ := h
      exact Moves.of_nodes rfl
  | assignProxy role fence originKey =>
      refine step_quiet tables url rfl rfl rfl ?_
      intro a p' h
      obtain ⟨r, hrun, -⟩ := map_ok.mp h
      exact Moves.of_nodes (assignProxy_cases hrun).1
  | recordProxyIp role fence nodeId address =>
      refine step_quiet tables url rfl rfl rfl ?_
      intro a p' h
      obtain ⟨b, hrun, -⟩ := map_ok.mp h
      exact recordProxyIp_moves hrun
  | proxyFailure role fence nodeId outcome cooldownSeconds offlineAfter =>
      exact step_reports tables url rfl rfl fun a p' h => by
        obtain ⟨b, hrun, -⟩ := map_ok.mp h
        exact proxyFailure_moves tables hrun
  | releaseRemote role fence =>
      refine step_quiet tables url rfl rfl rfl ?_
      intro a p' h
      obtain ⟨b, hrun, -⟩ := map_ok.mp h
      simp only [WorkerApi.releaseProxy, bind_ok, read_ok, exec_ok, pure_ok] at hrun
      obtain ⟨worker, p₁, hworker, _, _, ⟨-, rfl⟩, _, _, ⟨-, rfl⟩, _, _, rfl, -, rfl⟩ := hrun
      obtain ⟨rfl, -⟩ := identity_ok hworker
      exact Moves.of_nodes rfl
  | revoke nodeId =>
      refine Moves.update _ ?_
      intro n _
      by_cases hid : n.id = nodeId
      · simp [nextState, registered, revoked, hid]
      · simp [nextState, registered, revoked, reported, hid, Ne.symm hid]
  | crawl request =>
      refine step_quiet tables url rfl rfl rfl ?_
      intro a p' h
      simp only [PoolCall.body, bind_ok, exec_ok, pure_ok] at h
      obtain ⟨_, _, rfl, -, rfl⟩ := h
      exact Moves.of_nodes rfl

end CrawlTrove.Proxies
