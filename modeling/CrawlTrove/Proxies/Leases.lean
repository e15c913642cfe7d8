import CrawlTrove.Proxies.Runs

/-!
# The lease a selection returns

`select` inserts the lease row of its task unless the task has one, and returns
the node it chose in either case. The two agree when no row of the task is left,
or when what is left names the same token and the node that comes first anyway.
-/

namespace CrawlTrove.Proxies

open Relational Transaction

/-! ## The node that comes first -/

instance (p : Pool) (x : PoolTxn) : Std.Total (p.notAfter x) where
  total a b := by
    rcases lt_trichotomy (p.activeLeases x.now a.id) (p.activeLeases x.now b.id) with h | h | h
    · exact Or.inl (Or.inl h)
    · rcases x.collation.total a.id b.id with hle | hle
      · exact Or.inl (Or.inr ⟨h, hle⟩)
      · exact Or.inr (Or.inr ⟨h.symm, hle⟩)
    · exact Or.inr (Or.inl h)

instance (p : Pool) (x : PoolTxn) : IsTrans ProxyNode (p.notAfter x) where
  trans a b c := by
    rintro (hab | ⟨hab, hle⟩) (hbc | ⟨hbc, hle'⟩)
    · exact Or.inl (hab.trans hbc)
    · exact Or.inl (hbc ▸ hab)
    · exact Or.inl (hab ▸ hbc)
    · exact Or.inr ⟨hab.trans hbc, x.collation.trans _ _ _ hle hle'⟩

/-- Of two nodes that may stand before each other the ids are equal. -/
theorem id_eq_of_notAfter {p : Pool} {x : PoolTxn} {a b : ProxyNode} (hab : p.notAfter x a b)
    (hba : p.notAfter x b a) : a.id = b.id := by
  rcases hab with hab | ⟨hab, hle⟩
  · rcases hba with hba | ⟨hba, -⟩ <;> omega
  · rcases hba with hba | ⟨-, hle'⟩
    · omega
    · exact x.collation.antisymm _ _ hle hle'

/-- A free node that no other free node comes before: of those with the fewest
live leases the one with the least id. -/
def ComesFirst (p : Pool) (x : PoolTxn) (region : Option String) (id : String) : Prop :=
  ∃ n ∈ p.nodes, n.id = id ∧ n.free x region = true ∧
    ∀ m ∈ p.nodes, m.free x region = true → p.notAfter x n m

theorem first_notAfter {p : Pool} {x : PoolTxn} {region : Option String} {n m : ProxyNode}
    (h : p.first x region = some n) (hm : m ∈ p.nodes) (hfree : m.free x region = true) :
    p.notAfter x n m := by
  have hsorted := List.pairwise_insertionSort (p.notAfter x) (p.nodes.select (·.free x region))
  have hmem : m ∈ (p.nodes.select (·.free x region)).insertionSort (p.notAfter x) :=
    List.mem_insertionSort _ |>.mpr (Table.mem_select.mpr ⟨hm, hfree⟩)
  unfold Pool.first at h
  cases hline : (p.nodes.select (·.free x region)).insertionSort (p.notAfter x) with
  | nil => simp [hline] at h
  | cons a line =>
      rw [hline] at h hsorted hmem
      cases h
      rcases List.mem_cons.mp hmem with rfl | hmem
      · exact (Std.Total.total m m).elim id id
      · exact List.rel_of_pairwise_cons hsorted hmem

/-- The node `select` chooses is the one that comes first. -/
theorem comesFirst_iff {p : Pool} {x : PoolTxn} {region : Option String} {n : ProxyNode}
    (h : p.first x region = some n) (id : String) : ComesFirst p x region id ↔ id = n.id := by
  obtain ⟨hn, hfree⟩ := first_eq_some h
  constructor
  · rintro ⟨m, hm, rfl, hmfree, hleast⟩
    exact id_eq_of_notAfter (hleast n hn hfree) (first_notAfter h hm hmfree)
  · rintro rfl
    exact ⟨n, hn, rfl, hfree, fun m hm hmfree => first_notAfter h hm hmfree⟩

/-! ## The row of the task -/

/-- The lease row of the task names this node and the token. -/
def LeaseNames (p : Pool) (fence : Fence) (nodeId : String) : Prop :=
  ∃ l ∈ p.store.proxyLeases, l.taskId = fence.taskId ∧ l.nodeId = nodeId ∧
    l.leaseToken = fence.token

instance (p : Pool) (fence : Fence) (nodeId : String) : Decidable (LeaseNames p fence nodeId) :=
  inferInstanceAs (Decidable (∃ l ∈ p.store.proxyLeases, _))

theorem lease_eq_of_task {T : Table ProxyLease} {a b : ProxyLease} (ha : a ∈ T) (hb : b ∈ T)
    (h : a.taskId = b.taskId) : a = b :=
  Table.eq_of_clash ha hb (by simp [Clashes, Keyed.clash, Keyed.key, h])

/-- A row of the task stays as it is. -/
theorem insertLeaseOnce_of_mem {p : Pool} {l : ProxyLease} (l' : ProxyLease)
    (hl : l ∈ p.store.proxyLeases) (htask : l.taskId = l'.taskId) :
    insertLeaseOnce l' p = p := by
  have hclash : p.store.proxyLeases.insert? l' = none :=
    Table.insert?_eq_none.mpr ⟨l, hl, by simp [Clashes, Keyed.clash, Keyed.key, htask]⟩
  simp [insertLeaseOnce, insertLease, hclash]

/-- Without a row of the task the new one is inserted. -/
theorem mem_insertLeaseOnce {p : Pool} {l : ProxyLease}
    (hnone : ∀ x ∈ p.store.proxyLeases, x.taskId ≠ l.taskId) :
    l ∈ (insertLeaseOnce l p).store.proxyLeases := by
  cases hinsert : p.store.proxyLeases.insert? l with
  | none =>
      obtain ⟨x, hx, hclash⟩ := Table.insert?_eq_none.mp hinsert
      exact absurd (by simpa [Clashes, Keyed.clash, Keyed.key] using hclash) (hnone x hx)
  | some T =>
      have hmem : l ∈ T := (Table.mem_of_insert? hinsert).mpr (Or.inr rfl)
      simpa [insertLeaseOnce, insertLease, hinsert] using hmem

theorem mergeEntry_store {entry : ConfiguredProxy} {p p' : Pool}
    (h : mergeEntry entry p = some p') : p'.store = p.store := by
  unfold mergeEntry at h
  cases hfound : p.node? entry.id with
  | none =>
      rw [hfound] at h
      obtain ⟨T, -, rfl⟩ := Option.map_eq_some_iff.mp h
      rfl
  | some n =>
      simp only [hfound] at h
      split at h
      · cases h
        rfl
      · obtain ⟨T, -, rfl⟩ := Option.map_eq_some_iff.mp h
        rfl

theorem mergeConfigured_store {configured : List ConfiguredProxy} {p p' : Pool}
    (h : mergeConfigured configured p = some p') : p'.store = p.store := by
  induction configured generalizing p with
  | nil =>
      cases h
      rfl
  | cons entry entries ih =>
      obtain ⟨p₁, h₁, h⟩ := Option.bind_eq_some_iff.mp h
      exact (ih h).trans (mergeEntry_store h₁)

/-- The leases a selection finds are those that have not expired. -/
theorem Chooses.mem_leases {x : PoolTxn} {configured : List ConfiguredProxy} {p q : Pool}
    (h : Chooses x configured p q) {l : ProxyLease} :
    l ∈ q.store.proxyLeases ↔ l ∈ p.store.proxyLeases ∧ x.now < l.expiresAt := by
  obtain ⟨merged, hmerged, rfl⟩ := h
  rw [← mergeConfigured_store hmerged]
  show l ∈ merged.store.proxyLeases.delete _ ↔ _
  simp

theorem Chooses.unique {x : PoolTxn} {configured : List ConfiguredProxy} {p q q' : Pool}
    (h : Chooses x configured p q) (h' : Chooses x configured p q') : q = q' := by
  obtain ⟨merged, hmerged, rfl⟩ := h
  obtain ⟨merged', hmerged', rfl⟩ := h'
  rw [Option.some.inj (hmerged.symm.trans hmerged')]

theorem insertLeaseOnce_tasks (l : ProxyLease) (p : Pool) :
    (insertLeaseOnce l p).store.tasks = p.store.tasks := by
  unfold insertLeaseOnce insertLease
  cases p.store.proxyLeases.insert? l <;> rfl

/-- A row after a selection was there and had not expired, or is the new one. -/
theorem lives_of_insertLeaseOnce {p : Pool} {l l' : ProxyLease}
    (h : l ∈ (insertLeaseOnce l' p).store.proxyLeases) : l ∈ p.store.proxyLeases ∨ l = l' := by
  unfold insertLeaseOnce insertLease at h
  cases hinsert : p.store.proxyLeases.insert? l' with
  | none =>
      rw [hinsert] at h
      exact Or.inl h
  | some T =>
      rw [hinsert] at h
      exact (Table.mem_of_insert? hinsert).mp h

/-- A matching row is what the fences of `record_connected_ip` and of
`mark_failure` ask for. -/
theorem fenced_of_leaseNames {x : PoolTxn} {configured : List ConfiguredProxy}
    {fence : Fence} {originKey nodeId chosen : String} {p q : Pool}
    (hq : Chooses x configured p q) (htask : (fencedTask fence q).isSome = true)
    (h : LeaseNames (insertLeaseOnce (leaseRow x fence originKey chosen) q) fence nodeId) :
    fenced x.now (some fence) nodeId (insertLeaseOnce (leaseRow x fence originKey chosen) q) =
      true := by
  obtain ⟨l, hl, htaskId, hnode, htoken⟩ := h
  have hlive : x.now < l.expiresAt := by
    rcases lives_of_insertLeaseOnce hl with hold | rfl
    · exact (hq.mem_leases.mp hold).2
    · show x.now < x.now + seconds 120
      simp [seconds]
  obtain ⟨t, ht⟩ := Option.isSome_iff_exists.mp htask
  obtain ⟨hmem, hleased⟩ := Table.find?_eq_some ht
  simp only [fenced, Option.all_some, Bool.and_eq_true, Pool.leased, Pool.taskLeased,
    insertLeaseOnce_tasks, Table.any_eq_true]
  exact ⟨⟨l, hl, by simp [htaskId, hnode, htoken, hlive]⟩, ⟨t, hmem, by simpa using hleased⟩⟩

/-- After a selection the row of the task names the node and the token of the
returned lease, and `record_connected_ip` and a fenced `mark_failure` act on that
node, exactly when no unexpired row of the task was left, or the row left already
had this token and the node that comes first. -/
theorem lease_agrees_iff {x : PoolTxn} {configured : List ConfiguredProxy} {originKey : String}
    {region : Option String} {fence : Fence} {selection : Selection} {p p' : Pool}
    (h : select x configured originKey region (some fence.taskId) (some fence.token) p =
      .ok (some selection, p')) :
    (LeaseNames p' fence selection.nodeId ∧
        fenced x.now (some fence) selection.nodeId p' = true) ↔
      ∀ l ∈ p.store.proxyLeases, l.taskId = fence.taskId → x.now < l.expiresAt →
        l.leaseToken = fence.token ∧
          ∀ q, Chooses x configured p q → ComesFirst q x region l.nodeId := by
  obtain ⟨q, hq, -, hchosen⟩ := select_cases h
  obtain ⟨hfence, node, hfirst, hid, hinsert⟩ := hchosen selection rfl
  obtain ⟨htask, hp'⟩ := hinsert fence (hfence.trans rfl)
  rw [hp', ← hid, and_iff_left_of_imp (fenced_of_leaseNames hq htask)]
  constructor
  · rintro ⟨l, hl, htask, hnode, htoken⟩ l' hl' htask' hexpires
    have hl'q : l' ∈ q.store.proxyLeases := hq.mem_leases.mpr ⟨hl', hexpires⟩
    -- the row left is the one the insert met
    rw [insertLeaseOnce_of_mem (leaseRow x fence originKey node.id) hl'q htask'] at hl
    obtain rfl : l' = l := lease_eq_of_task hl'q hl (htask'.trans htask.symm)
    refine ⟨htoken, ?_⟩
    intro q' hq'
    rw [← hq.unique hq', hnode]
    exact (comesFirst_iff hfirst _).mpr rfl
  · intro hrows
    by_cases hleft : ∃ l ∈ q.store.proxyLeases, l.taskId = fence.taskId
    · obtain ⟨l, hl, htask⟩ := hleft
      obtain ⟨hlp, hexpires⟩ := hq.mem_leases.mp hl
      obtain ⟨htoken, hcomes⟩ := hrows l hlp htask hexpires
      have hnode : l.nodeId = node.id := (comesFirst_iff hfirst _).mp (hcomes q hq)
      rw [insertLeaseOnce_of_mem (leaseRow x fence originKey node.id) hl htask]
      exact ⟨l, hl, htask, hnode, htoken⟩
    · push Not at hleft
      exact ⟨_, mem_insertLeaseOnce hleft, rfl, rfl, rfl⟩

namespace Sample

def chooseNode (second : ℤ) (fence : Fence) : PoolRequest :=
  ⟨{ now := seconds second }, .select [] "https://example.com:443" none (some fence.taskId)
    (some fence.token)⟩

/-- A worker leases the seed, selects a node and is not heard of again; the lease
is reaped, and the seed is leased once more. -/
def leasedAgain : List PoolRequest :=
  [register 0 "node-a" "a.example:9443", register 0 "node-b" "b.example:9443",
    crawl CrawlTrove.Sample.submit, crawl CrawlTrove.Sample.claim, chooseNode 26 ⟨2, 11⟩,
    crawl ⟨{ now := seconds 122, uuid := fun n => 21 + n }, .reapExpiredLeases⟩,
    crawl ⟨{ now := seconds 130, uuid := fun n => 31 + n }, .claimTask "local" ["http"]⟩]

/-- The selection returns the second node under the new token; the row of the task
names the first under the old one, and no fence holds for the second. -/
theorem lease_disagrees :
    handsOut asciiTables CrawlTrove.Sample.identity (chooseNode 131 ⟨2, 31⟩)
        (run asciiTables CrawlTrove.Sample.identity {} leasedAgain) = some "node-b" ∧
      LeaseNames (run asciiTables CrawlTrove.Sample.identity {}
        (leasedAgain ++ [chooseNode 131 ⟨2, 31⟩])) ⟨2, 11⟩ "node-a" ∧
      ¬ LeaseNames (run asciiTables CrawlTrove.Sample.identity {}
        (leasedAgain ++ [chooseNode 131 ⟨2, 31⟩])) ⟨2, 31⟩ "node-b" ∧
      fenced (seconds 131) (some ⟨2, 31⟩) "node-b" (run asciiTables CrawlTrove.Sample.identity {}
        (leasedAgain ++ [chooseNode 131 ⟨2, 31⟩])) = false := by
  decide

/-- The seed is leased again, and the row of its first lease is left. -/
def leftOver : Pool := run asciiTables CrawlTrove.Sample.identity {} leasedAgain

theorem select_leftOver :
    ∃ selection p', select { now := seconds 131 } [] "https://example.com:443" none (some 2)
      (some 31) leftOver = .ok (some selection, p') := by
  have hsome : ((select { now := seconds 131 } [] "https://example.com:443" none (some 2)
      (some 31) leftOver).toOption.any fun r => r.1.isSome) = true := by decide
  cases hrun : select { now := seconds 131 } [] "https://example.com:443" none (some 2)
      (some 31) leftOver with
  | error e =>
      rw [hrun] at hsome
      exact absurd hsome (by simp [Except.toOption])
  | ok r =>
      obtain ⟨selection, p'⟩ := r
      cases selection with
      | none =>
          rw [hrun] at hsome
          exact absurd hsome (by simp [Except.toOption])
      | some selection => exact ⟨selection, p', rfl⟩

/-- The row that is left names another token, so the selection does not agree with it. -/
theorem lease_agrees_leftOver :
    ∃ (selection : Selection) (p' : Pool),
      select { now := seconds 131 } [] "https://example.com:443" none (some 2) (some 31) leftOver =
        .ok (some selection, p') ∧
      (∃ l ∈ leftOver.store.proxyLeases, l.taskId = 2 ∧ seconds 131 < l.expiresAt ∧
        l.leaseToken ≠ 31) ∧
      ¬ (LeaseNames p' ⟨2, 31⟩ selection.nodeId ∧
        fenced (seconds 131) (some ⟨2, 31⟩) selection.nodeId p' = true) := by
  obtain ⟨selection, p', h⟩ := select_leftOver
  have hleft : ∃ l ∈ leftOver.store.proxyLeases, l.taskId = 2 ∧ seconds 131 < l.expiresAt ∧
      l.leaseToken ≠ 31 := by decide
  refine ⟨selection, p', h, hleft, fun hagrees => ?_⟩
  obtain ⟨l, hl, htask, hexpires, htoken⟩ := hleft
  exact htoken ((@lease_agrees_iff _ _ _ _ ⟨2, 31⟩ _ _ _ h).mp hagrees l hl htask hexpires).1

end Sample

end CrawlTrove.Proxies
