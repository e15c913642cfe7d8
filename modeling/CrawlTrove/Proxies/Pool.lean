import CrawlTrove.Relational.Execution
import CrawlTrove.Store.System
import CrawlTrove.Web.Url

/-!
# The proxy pool

`ProxyPool` (`app/acquisition/proxy.py`) and the proxy functions of the worker
protocol (`0009_proxy_worker_protocol.sql`): the table of owned nodes and the
leases that tie a node to a task. The leases stand in the crawl store, whose
operations clear them. The columns `proxy_id` and `proxy_connected_ip` of an
attempt are written here and read by nothing, and are left out.
-/

namespace CrawlTrove.Relational.Table

universe u v

variable {ρ : Type u} [Keyed.{u, v} ρ]

/-- `INSERT ... ON CONFLICT DO UPDATE`: the new row takes the place of the
conflicting one. `none` is a violation of another unique constraint. -/
def upsert? (conflicts : ρ → Bool) (r : ρ) (T : Table ρ) : Option (Table ρ) :=
  (T.delete conflicts).insert? r

theorem mem_of_upsert? {conflicts : ρ → Bool} {r x : ρ} {T T' : Table ρ}
    (h : T.upsert? conflicts r = some T') :
    x ∈ T' ↔ (x ∈ T ∧ conflicts x = false) ∨ x = r := by
  rw [mem_of_insert? h, mem_delete]

end CrawlTrove.Relational.Table

namespace CrawlTrove.Proxies

open Relational Transaction

/-! ## Addresses and labels -/

/-- An `INET` value. -/
structure Inet where
  isV6 : Bool
  address : ℕ
  maskLength : ℕ
deriving DecidableEq

def Inet.bits (a : Inet) : ℕ := if a.isV6 then 128 else 32

/-- `<<=`. -/
def Inet.within (a net : Inet) : Bool :=
  a.isV6 = net.isV6 && net.maskLength ≤ a.maskLength &&
    a.address >>> (a.bits - net.maskLength) = net.address >>> (net.bits - net.maskLength)

/-- `a.b.c.d/length`. -/
def v4 (a b c d length : ℕ) : Inet := ⟨false, ((a * 256 + b) * 256 + c) * 256 + d, length⟩

/-- An IPv6 network that begins with these two groups. -/
def v6 (a b length : ℕ) : Inet := ⟨true, (a * 65536 + b) * 2 ^ 96, length⟩

/-- The networks `record_proxy_ip` refuses. -/
def refusedNetworks : List Inet :=
  [v4 0 0 0 0 8, v4 10 0 0 0 8, v4 100 64 0 0 10, v4 127 0 0 0 8, v4 169 254 0 0 16,
    v4 172 16 0 0 12, v4 192 0 0 0 24, v4 192 0 2 0 24, v4 192 88 99 0 24, v4 192 168 0 0 16,
    v4 198 18 0 0 15, v4 198 51 100 0 24, v4 203 0 113 0 24, v4 224 0 0 0 3,
    v6 0x2001 0xdb8 32, v6 0xfc00 0 7, v6 0xfe80 0 10, v6 0xff00 0 8]

/-- Refused by `record_proxy_ip`; an IPv6 address must also lie in `2000::/3`. -/
def Inet.refused (a : Inet) : Bool :=
  refusedNetworks.any a.within || (a.isV6 && !a.within (v6 0x2000 0 3))

/-- Python's and PostgreSQL's text tables. -/
structure HostTables extends Web.Tables where
  isSpace : Char → Bool
  /-- `text::INET`, for the text of an address. -/
  inet : Web.Text → Inet

variable (tables : HostTables)

/-- `_NODE_ID`. -/
def validNodeId (id : String) : Bool :=
  match id.toList with
  | [] => false
  | c :: rest =>
      c.isAlphanum && decide (rest.length ≤ 63) &&
        rest.all fun d => d.isAlphanum || d = '_' || d = '-'

/-- `_REGION`. -/
def validRegion (region : String) : Bool :=
  match region.toList with
  | [] => false
  | c :: rest =>
      (c.isLower || c.isDigit) && decide (rest.length ≤ 31) &&
        rest.all fun d => d.isLower || d.isDigit || d = '-'

/-- `_regions` accepts the values. -/
def validRegions (regions : List String) : Bool :=
  decide regions.Nodup && regions.all validRegion

/-- Neither `None` nor empty. -/
def isGiven (text : Option Web.Text) : Bool := text.any (!·.isEmpty)

/-- `value != value.strip()`, for a value that is not empty. -/
def hasOuterSpace (value : Web.Text) : Bool :=
  value.head?.any tables.isSpace || value.getLast?.any tables.isSpace

/-- `_endpoint`. -/
def normalEndpoint (endpoint : String) (configured : Bool) : Except String String := do
  let value := endpoint.toList
  if value.isEmpty || hasOuterSpace tables value then
    throw "proxy endpoint is required"
  match Web.urlsplit tables.toTables
      (if value.tails.any "://".toList.isPrefixOf then value else "//".toList ++ value) [] with
  | none => throw "invalid URL"
  | some parsed =>
      if configured && parsed.scheme != "https".toList then
        throw "configured proxy URL must use https"
      if !configured && !(parsed.scheme.isEmpty || parsed.scheme == "https".toList) then
        throw "owned proxy endpoint must use https"
      if !isGiven (parsed.hostname tables.toTables) || isGiven parsed.userinfo.1 ||
          isGiven parsed.userinfo.2 || !parsed.query.isEmpty || !parsed.fragment.isEmpty then
        throw "proxy endpoint must be an authority without credentials"
      match parsed.port with
      | none => throw "proxy endpoint port is invalid"
      | some port =>
          if port.getD 0 = 0 || !(parsed.path.isEmpty || parsed.path == ['/']) then
            throw "proxy endpoint must include one valid port"
          return "https://" ++ String.ofList parsed.netloc

/-! ## Nodes -/

inductive NodeState
  | active | cooldown | revoked | offline
deriving DecidableEq, Repr

/-- `proxy_nodes`. A credential that never expires has no expiry. -/
structure ProxyNode where
  id : String
  endpoint : String
  regions : List String
  state : NodeState
  credentialExpiresAt : Option Time
  cooldownUntil : Option Time := none
  lastConnectedIp : Option Inet := none
  lastSeenAt : Option Time := none
  failureCount : ℤ := 0
deriving DecidableEq

theorem clash_refl_pair (k : String × String) :
    (decide (k.1 = k.1) || decide (k.2 = k.2)) = true := by
  rw [decide_eq_true rfl, Bool.true_or]

theorem clash_symm_pair (a b : String × String) :
    (decide (a.1 = b.1) || decide (a.2 = b.2)) = (decide (b.1 = a.1) || decide (b.2 = a.2)) := by
  have hid : decide (a.1 = b.1) = decide (b.1 = a.1) := decide_eq_decide.mpr eq_comm
  have hendpoint : decide (a.2 = b.2) = decide (b.2 = a.2) := decide_eq_decide.mpr eq_comm
  rw [hid, hendpoint]

instance : Keyed ProxyNode where
  Key := String × String
  key n := (n.id, n.endpoint)
  clash a b := decide (a.1 = b.1) || decide (a.2 = b.2)
  clash_refl := clash_refl_pair
  clash_symm := clash_symm_pair

/-- `ConfiguredProxy`, as loaded from the proxy file. -/
structure ConfiguredProxy where
  id : String
  endpoint : String
  region : Option String := none
deriving DecidableEq

/-- The crawl store and the nodes. -/
structure Pool where
  store : Store := {}
  nodes : Table ProxyNode := Table.empty

abbrev PoolTx (α : Type) := Transaction Pool DbError α

/-- The order of a text column. -/
structure Collation where
  le : String → String → Bool
  total : ∀ a b, le a b = true ∨ le b a = true
  trans : ∀ a b c, le a b = true → le b c = true → le a c = true
  antisymm : ∀ a b, le a b = true → le b a = true → a = b

/-- The order of the characters. -/
def Collation.bytewise : Collation where
  le a b := decide (a ≤ b)
  total a b := by simpa using le_total a b
  trans a b c := by simpa using le_trans
  antisymm a b := by simpa using le_antisymm

/-- The user name and password read from the files of a configured proxy. -/
structure Credentials where
  username : String
  password : String
deriving DecidableEq

/-- What a transaction of the pool sees besides its tables: the time, the nodes
`SKIP LOCKED` passes over, and what the secret files of the configured proxies
give, or why they are refused: credentials, and whether there is a TLS context. -/
structure PoolTxn where
  now : Time
  lockedNode : String → Bool := fun _ => false
  collation : Collation := .bytewise
  secrets : ConfiguredProxy → Except String (Option Credentials × Bool) := fun _ => .ok (none, false)

/-- `proxy_leases` rows of this node that have not expired. -/
def Pool.activeLeases (p : Pool) (now : Time) (nodeId : String) : ℤ :=
  p.store.proxyLeases.count fun l => l.nodeId = nodeId && decide (now < l.expiresAt)

/-- What `select` and `assign_proxy` ask of a node. -/
def ProxyNode.selectable (now : Time) (region : Option String) (n : ProxyNode) : Bool :=
  decide (n.state = .active) && n.credentialExpiresAt.all (now < ·) &&
    n.cooldownUntil.all (· ≤ now) && region.all n.regions.contains

/-- Selectable and not locked by another transaction. -/
def ProxyNode.free (x : PoolTxn) (region : Option String) (n : ProxyNode) : Bool :=
  n.selectable x.now region && !x.lockedNode n.id

/-- `ORDER BY active_leases, n.id`. -/
def Pool.notAfter (p : Pool) (x : PoolTxn) (a b : ProxyNode) : Prop :=
  p.activeLeases x.now a.id < p.activeLeases x.now b.id ∨
    (p.activeLeases x.now a.id = p.activeLeases x.now b.id ∧ x.collation.le a.id b.id = true)

instance (p : Pool) (x : PoolTxn) : DecidableRel (p.notAfter x) :=
  fun _ _ => inferInstanceAs (Decidable (_ ∨ _))

/-- `FOR UPDATE OF n SKIP LOCKED LIMIT 1`. -/
def Pool.first (p : Pool) (x : PoolTxn) (region : Option String) : Option ProxyNode :=
  ((p.nodes.select (·.free x region)).insertionSort (p.notAfter x)).head?

def Pool.node? (p : Pool) (id : String) : Option ProxyNode := p.nodes.find? fun n => n.id = id

/-- A live lease row ties the node to the task under this token. -/
def Pool.leased (p : Pool) (nodeId : String) (taskId token : Uuid) (live : ProxyLease → Bool) :
    Bool :=
  p.store.proxyLeases.any fun l =>
    l.nodeId = nodeId && l.taskId = taskId && l.leaseToken = token && live l

/-- The task is leased under this token, to this worker if one is named. -/
def Pool.taskLeased (p : Pool) (taskId token : Uuid) (owner : Option String) : Bool :=
  p.store.tasks.any fun t => t.id = taskId && t.state = .leased && t.leaseToken = some token &&
    (owner.isNone || t.leaseOwner = owner)

/-! ## Statements -/

def updateNodes (q : ProxyNode → Bool) (f : ProxyNode → ProxyNode) (p : Pool)
    (hf : ∀ r, Keyed.key (f r) = Keyed.key r := by intro _; rfl) : Pool :=
  { p with nodes := p.nodes.update q f hf }

def insertNode (n : ProxyNode) (p : Pool) : Option Pool :=
  (p.nodes.insert? n).map fun T => { p with nodes := T }

def upsertNode (n : ProxyNode) (p : Pool) : Option Pool :=
  (p.nodes.upsert? (fun m => m.id = n.id) n).map fun T => { p with nodes := T }

def deleteLeases (q : ProxyLease → Bool) (p : Pool) : Pool :=
  { p with store := p.store.deleteProxyLeases q }

/-- `INSERT INTO proxy_leases`. -/
def insertLease (l : ProxyLease) (p : Pool) : Option Pool :=
  (p.store.proxyLeases.insert? l).map fun T => { p with store := { p.store with proxyLeases := T } }

/-- `INSERT INTO proxy_leases ... ON CONFLICT (task_id) DO NOTHING`. -/
def insertLeaseOnce (l : ProxyLease) (p : Pool) : Pool := (insertLease l p).getD p

/-- Run a statement of the worker protocol on the store. -/
def onStore {α : Type} (m : Tx α) : PoolTx α := fun p =>
  match m p.store with
  | .ok (a, store) => .ok (a, { p with store })
  | .error e => .error e

/-! ## `ProxyPool` -/

/-- One round of `_merge_configured`. -/
def mergeEntry (entry : ConfiguredProxy) (p : Pool) : Option Pool :=
  match p.node? entry.id with
  | none =>
      insertNode
        { id := entry.id, endpoint := entry.endpoint, regions := entry.region.toList
          state := .active, credentialExpiresAt := none } p
  | some n =>
      if n.state = .revoked then some p
      else upsertNode { n with endpoint := entry.endpoint, regions := entry.region.toList } p

/-- `_merge_configured`. -/
def mergeConfigured : List ConfiguredProxy → Pool → Option Pool
  | [], p => some p
  | entry :: entries, p => (mergeEntry entry p).bind (mergeConfigured entries)

/-- The statement of `register`. -/
def registerNode (now : Time) (nodeId endpoint : String) (regions : List String) (expiresAt : Time)
    (p : Pool) : Option Pool :=
  match p.node? nodeId with
  | none =>
      insertNode
        { id := nodeId, endpoint, regions, state := .active
          credentialExpiresAt := some expiresAt, lastSeenAt := some now } p
  | some n =>
      upsertNode
        { n with
          endpoint
          regions
          credentialExpiresAt := some expiresAt
          state := if n.state = .revoked then .revoked else .active
          lastSeenAt := some now } p

/-- `register`. -/
def register (x : PoolTxn) (nodeId endpoint : String) (regions : List String)
    (credentialExpiresAt : Option Time) : PoolTx PUnit := do
  let expiresAt := credentialExpiresAt.getD (x.now + seconds 86400)
  if !validNodeId nodeId then
    raise (.invalidParameter "proxy node ID is invalid")
  else if expiresAt ≤ x.now then
    raise (.invalidParameter "proxy credentials must expire in the future")
  else
    match normalEndpoint tables endpoint false with
    | .error message => raise (.invalidParameter message)
    | .ok authority =>
        if !validRegions regions then
          raise (.invalidParameter "proxy regions must be unique lowercase region labels")
        else
          attempt .integrityViolation (registerNode x.now nodeId authority regions expiresAt)

/-- `ProxyPool.heartbeat`. -/
def heartbeat (x : PoolTxn) (nodeId : String) : PoolTx Bool := do
  let mine (n : ProxyNode) : Bool :=
    n.id = nodeId && decide (n.state = .active) && n.credentialExpiresAt.all (x.now < ·)
  let ok ← read fun p => p.nodes.any mine
  exec (updateNodes mine fun n => { n with lastSeenAt := some x.now })
  return ok

/-- What a blocked failure writes. NULL seconds from now are NULL. -/
def ProxyNode.blocked (now : Time) (cooldownSeconds : Option ℤ) (n : ProxyNode) : ProxyNode :=
  { n with
    state := .cooldown
    cooldownUntil := cooldownSeconds.map fun length => now + seconds length
    failureCount := n.failureCount + 1 }

/-- `failure_count + 1 >= offline_after`, which a NULL threshold leaves unknown. -/
def ProxyNode.exhausts (offlineAfter : Option ℤ) (n : ProxyNode) : Bool :=
  offlineAfter.any fun limit => decide (limit ≤ n.failureCount + 1)

/-- What any other failure writes. -/
def ProxyNode.unreachable (offlineAfter : Option ℤ) (n : ProxyNode) : ProxyNode :=
  { n with
    failureCount := n.failureCount + 1
    state := if n.exhausts offlineAfter then .offline else n.state }

/-- The lease and the task a failure or an address is reported for. -/
structure Fence where
  taskId : Uuid
  token : Uuid
deriving DecidableEq

/-- The fence of `mark_failure`, if the caller gives one. -/
def fenced (now : Time) (fence : Option Fence) (nodeId : String) (p : Pool) : Bool :=
  fence.all fun f =>
    p.leased nodeId f.taskId f.token (fun l => decide (now < l.expiresAt)) &&
      p.taskLeased f.taskId f.token none

/-- The one update of `mark_failure`, and whether it met a row. -/
def failNode (now : Time) (nodeId : String) (fence : Option Fence) (f : ProxyNode → ProxyNode)
    (hf : ∀ r, Keyed.key (f r) = Keyed.key r) : PoolTx Bool := do
  let open' ← read (fenced now fence nodeId)
  let mine (n : ProxyNode) : Bool := n.id = nodeId && decide (n.state ≠ .revoked) && open'
  let ok ← read fun p => p.nodes.any mine
  exec (updateNodes mine f · hf)
  return ok

/-- `mark_failure`. A fence needs both the task and the token. -/
def markFailure (x : PoolTxn) (nodeId outcome : String) (cooldownSeconds offlineAfter : ℤ)
    (taskId token : Option Uuid) : PoolTx Bool := do
  if cooldownSeconds < 1 ∨ offlineAfter < 1 then
    raise (.invalidParameter "proxy failure thresholds must be positive")
  else if taskId.isSome ≠ token.isSome then
    raise (.invalidParameter "proxy failure fence requires task and lease token")
  else
    let fence := taskId.bind fun taskId => token.map fun token => ⟨taskId, token⟩
    if outcome = "blocked" then
      failNode x.now nodeId fence (·.blocked x.now (some cooldownSeconds)) fun _ => rfl
    else if outcome = "transport" then
      failNode x.now nodeId fence (·.unreachable (some offlineAfter)) fun _ => rfl
    else
      raise (.invalidParameter "proxy failure outcome must be blocked or transport")

/-- `ProxyLease`, the value `select` returns. -/
structure Selection where
  nodeId : String
  endpoint : String
  originKey : String
  fence : Option Fence
  credentials : Option Credentials
  bridged : Bool
deriving DecidableEq

/-- The lease and the attempt are bound to the node; `false` when no attempt of
the task is open. -/
def bindLease (x : PoolTxn) (fence : Fence) (originKey nodeId : String) (attemptCount : ℤ) :
    PoolTx Bool := do
  exec (insertLeaseOnce
    { nodeId, taskId := fence.taskId, originKey, leaseToken := fence.token
      expiresAt := x.now + seconds 120 })
  let assigned ← read fun p => p.store.attempts.any fun a =>
    a.taskId = fence.taskId && a.attemptNumber = attemptCount && a.finishedAt.isNone
  if assigned then return true
  else
    exec (deleteLeases fun l => l.taskId = fence.taskId && l.leaseToken = fence.token)
    return false

/-- The result of `select`, with the secrets of a configured node. -/
def handOut (x : PoolTxn) (configured : List ConfiguredProxy) (originKey : String)
    (fence : Option Fence) (node : ProxyNode) : PoolTx (Option Selection) := do
  match (configured.find? fun entry => entry.id = node.id).elim (.ok (none, false)) x.secrets with
  | .error message => raise (.invalidParameter message)
  | .ok (credentials, bridged) =>
      return some
        { nodeId := node.id, endpoint := node.endpoint, originKey, fence, credentials, bridged }

/-- The task of the fence, if it is leased under its token. -/
def fencedTask (fence : Fence) (p : Pool) : Option Task :=
  p.store.tasks.find? fun t =>
    t.id = fence.taskId && t.state = .leased && t.leaseToken = some fence.token

/-- `select`. -/
def select (x : PoolTxn) (configured : List ConfiguredProxy) (originKey : String)
    (region : Option String) (taskId token : Option Uuid) : PoolTx (Option Selection) := do
  if originKey = "" then
    raise (.invalidParameter "proxy selection requires an origin key")
  else if !region.all validRegion then
    raise (.invalidParameter "proxy regions must be unique lowercase region labels")
  else if taskId.isSome ≠ token.isSome then
    raise (.invalidParameter "proxy task and lease token must be supplied together")
  else
    attempt .integrityViolation (mergeConfigured configured)
    exec (deleteLeases fun l => decide (l.expiresAt ≤ x.now))
    match taskId.bind fun taskId => token.map fun token => Fence.mk taskId token with
    | none =>
        match ← read fun p => p.first x region with
        | none => return none
        | some node => handOut x configured originKey none node
    | some fence =>
        match ← read (fencedTask fence) with
        | none => return none
        | some task =>
            match ← read fun p => p.first x region with
            | none => return none
            | some node =>
                if ← bindLease x fence originKey node.id task.attemptCount then
                  handOut x configured originKey (some fence) node
                else return none

/-- `record_connected_ip`. -/
def recordConnectedIp (x : PoolTxn) (fence : Fence) (nodeId address : String) : PoolTx Bool := do
  match tables.ipAddress address.toList with
  | none => return false
  | some parsed =>
      if !parsed.isGlobal || parsed.isMulticast || parsed.isUnspecified then return false
      else
        let live ← read (fenced x.now (some fence) nodeId)
        let mine (n : ProxyNode) : Bool := n.id = nodeId && live
        let matched ← read fun p => p.nodes.any mine
        exec (updateNodes mine fun n =>
          { n with lastConnectedIp := some (tables.inet parsed.text), lastSeenAt := some x.now })
        return matched

/-- `ProxyPool.release_proxy`. -/
def releaseProxy (fence : Fence) : PoolTx PUnit :=
  exec (deleteLeases fun l => l.taskId = fence.taskId && l.leaseToken = fence.token)

/-! ## `worker_api` -/

namespace WorkerApi

/-- `assign_proxy`. -/
def assignProxy (x : PoolTxn) (role : String) (fence : Fence) (originKey : String) :
    PoolTx (Option ProxyNode) := do
  let worker ← onStore (CrawlTrove.WorkerApi.identity role false)
  if !worker.capabilities.contains "proxy" || originKey = "" then
    raise (.insufficientPrivilege "proxy capability denied")
  else
    match ← read fun p =>
        CrawlTrove.WorkerApi.activeTask x.now worker fence.taskId fence.token p.store with
    | none => return none
    | some f => do
        exec (deleteLeases fun l => decide (l.expiresAt ≤ x.now) || l.taskId = f.task.id)
        match ← read fun p => p.first x none with
        | none => return none
        | some node => do
            attempt .integrityViolation (insertLease
              { nodeId := node.id, taskId := f.task.id, originKey, leaseToken := fence.token
                expiresAt := x.now + seconds 120 })
            return some node

/-- `record_proxy_ip`. -/
def recordProxyIp (x : PoolTxn) (role : String) (fence : Fence) (nodeId : String)
    (address : Option Inet) : PoolTx Bool := do
  let worker ← onStore (CrawlTrove.WorkerApi.identity role false)
  match address with
  | none => return false
  | some address =>
      if address.refused then return false
      else
        let live ← read fun p =>
          p.leased nodeId fence.taskId fence.token (fun l => decide (x.now < l.expiresAt)) &&
            p.taskLeased fence.taskId fence.token (some worker.id)
        let mine (n : ProxyNode) : Bool := n.id = nodeId && live
        let matched ← read fun p => p.nodes.any mine
        exec (updateNodes mine fun n =>
          { n with lastConnectedIp := some address, lastSeenAt := some x.now })
        return matched

/-- The rows `proxy_failure` meets: whatever the state of the node, and whether
or not the lease row has expired. -/
def reportable (worker : Worker) (fence : Fence) (nodeId : String) (p : Pool) : Bool :=
  p.leased nodeId fence.taskId fence.token (fun _ => true) &&
    p.taskLeased fence.taskId fence.token (some worker.id)

/-- The check of `proxy_failure`. A comparison with NULL is unknown, and an
unknown condition does not raise: only a comparison that is true does. -/
def failureRefused (outcome : Option String) (cooldownSeconds offlineAfter : Option ℤ) : Bool :=
  outcome.any (fun o => decide (o ≠ "blocked" ∧ o ≠ "transport")) ||
    cooldownSeconds.any (fun length => decide (length < 1)) ||
    offlineAfter.any (fun limit => decide (limit < 1))

/-- `proxy_failure`. -/
def proxyFailure (x : PoolTxn) (role : String) (fence : Fence) (nodeId : String)
    (outcome : Option String) (cooldownSeconds offlineAfter : Option ℤ) : PoolTx Bool := do
  let worker ← onStore (CrawlTrove.WorkerApi.identity role false)
  if failureRefused outcome cooldownSeconds offlineAfter then
    raise (.invalidParameter "invalid proxy failure")
  else
    let held ← read (reportable worker fence nodeId)
    let mine (n : ProxyNode) : Bool := n.id = nodeId && held
    let matched ← read fun p => p.nodes.any mine
    exec (updateNodes mine (fun n =>
      if outcome = some "blocked" then n.blocked x.now cooldownSeconds
      else n.unreachable offlineAfter) ·
        fun n => by split <;> rfl)
    return matched

/-- `release_proxy`: the caller acquired the task's current attempt. -/
def releaseProxy (role : String) (fence : Fence) : PoolTx Bool := do
  let worker ← onStore (CrawlTrove.WorkerApi.identity role true)
  let mine ← read fun p => p.store.tasks.any fun t => t.id = fence.taskId &&
    p.store.attempts.any fun a => a.taskId = fence.taskId &&
      a.attemptNumber = t.attemptCount && a.workerId = some worker.id
  let held (l : ProxyLease) : Bool :=
    l.taskId = fence.taskId && l.leaseToken = fence.token && mine
  let removed ← read fun p => p.store.proxyLeases.any held
  exec (deleteLeases held)
  return removed

end WorkerApi

end CrawlTrove.Proxies
