import CrawlTrove.Proxies.Runs

/-!
# Nodes that cool down

A blocked failure puts its node in the state `cooldown`, and `select` and
`assign_proxy` ask for the state `active`: the end of the cooldown alone does
not bring the node back. Of all operations only `register` does.
-/

namespace CrawlTrove.Proxies

open Relational Transaction

variable (tables : HostTables) (url : UrlIdentity)

/-- The call reports this node blocked, and the report is accepted. -/
def blocks (r : PoolRequest) (p : Pool) (id : String) : Bool :=
  match reported r p, p.node? id with
  | some f, some n =>
      f.nodeId = id && f.outcome = some "blocked" && !(f.sparesRevoked && decide (n.state = .revoked))
  | _, _ => false

/-- The node has been reported blocked and not been registered since, if it
already had (`waits`) or if a call of the run did so. -/
def awaitsRegistration (id : String) : Bool → Pool → List PoolRequest → Bool
  | waits, _, [] => waits
  | waits, p, r :: calls =>
      awaitsRegistration id
        (blocks r p id || (waits && decide (registered tables r p ≠ some id)))
        (step tables url r p) calls

/-- A candidate of `assign_proxy`, and of `select` for every region the node
serves, whatever configuration is merged first. -/
def Candidate (id : String) (now : Time) (p : Pool) : Prop :=
  (∀ n, p.node? id = some n → n.selectable now none = true) ∧
    ∀ configured merged n region, mergeConfigured configured p = some merged →
      merged.node? id = some n → region.all n.regions.contains = true →
      n.selectable now region = true

/-! ## Merging keeps what decides -/

/-- The columns a merge leaves alone. -/
def SameTerms (n n' : ProxyNode) : Prop :=
  n'.state = n.state ∧ n'.credentialExpiresAt = n.credentialExpiresAt ∧
    n'.cooldownUntil = n.cooldownUntil

theorem insertNode_old {n m : ProxyNode} {id : String} {p p' : Pool}
    (h : insertNode n p = some p') (hm : p.node? id = some m) : p'.node? id = some m := by
  obtain ⟨T, hT, rfl⟩ := Option.map_eq_some_iff.mp h
  obtain ⟨hmem, hid⟩ := node?_eq_some.mp hm
  exact node?_eq_some.mpr ⟨(Table.mem_of_insert? hT).mpr (Or.inl hmem), hid⟩

theorem upsertNode_old {n m : ProxyNode} {id : String} {p p' : Pool}
    (h : upsertNode n p = some p') (hm : p.node? id = some m) :
    p'.node? id = some (if m.id = n.id then n else m) := by
  obtain ⟨T, hT, rfl⟩ := Option.map_eq_some_iff.mp h
  obtain ⟨hmem, rfl⟩ := node?_eq_some.mp hm
  refine node?_eq_some.mpr ?_
  split
  · rename_i hid
    exact ⟨(Table.mem_of_upsert? hT).mpr (Or.inr rfl), hid.symm⟩
  · rename_i hid
    exact ⟨(Table.mem_of_upsert? hT).mpr (Or.inl ⟨hmem, by simpa using hid⟩), rfl⟩

theorem mergeEntry_terms {entry : ConfiguredProxy} {id : String} {n : ProxyNode} {p p' : Pool}
    (h : mergeEntry entry p = some p') (hn : p.node? id = some n) :
    ∃ n', p'.node? id = some n' ∧ SameTerms n n' := by
  unfold mergeEntry at h
  cases hfound : p.node? entry.id with
  | none =>
      rw [hfound] at h
      exact ⟨n, insertNode_old h hn, rfl, rfl, rfl⟩
  | some m =>
      simp only [hfound] at h
      split at h
      · cases h
        exact ⟨n, hn, rfl, rfl, rfl⟩
      · refine ⟨_, upsertNode_old h hn, ?_⟩
        split
        · rename_i hid
          have hsame : n = m := node_eq_of_id (node?_eq_some.mp hn).1 (node?_eq_some.mp hfound).1 hid
          subst hsame
          exact ⟨rfl, rfl, rfl⟩
        · exact ⟨rfl, rfl, rfl⟩

theorem mergeConfigured_terms {configured : List ConfiguredProxy} {id : String} {n : ProxyNode}
    {p p' : Pool} (h : mergeConfigured configured p = some p') (hn : p.node? id = some n) :
    ∃ n', p'.node? id = some n' ∧ SameTerms n n' := by
  induction configured generalizing p n with
  | nil =>
      cases h
      exact ⟨n, hn, rfl, rfl, rfl⟩
  | cons entry entries ih =>
      obtain ⟨p₁, h₁, h⟩ := Option.bind_eq_some_iff.mp h
      obtain ⟨m, hm, hstate, hcredential, hcooldown⟩ := mergeEntry_terms h₁ hn
      obtain ⟨n', hn', hstate', hcredential', hcooldown'⟩ := ih h hm
      exact ⟨n', hn', hstate'.trans hstate, hcredential'.trans hcredential,
        hcooldown'.trans hcooldown⟩

/-- A node whose credential and cooldown allow it is a candidate exactly when it
is active. -/
theorem candidate_iff {id : String} {now : Time} {n : ProxyNode} {p : Pool}
    (hn : p.node? id = some n) (hcredential : n.credentialExpiresAt.all (now < ·) = true)
    (hcooldown : n.cooldownUntil.all (· ≤ now) = true) :
    Candidate id now p ↔ n.state = .active := by
  have hselectable : ∀ m region, SameTerms n m → region.all m.regions.contains = true →
      (m.selectable now region = true ↔ n.state = .active) := by
    rintro m region ⟨hstate, hcredential', hcooldown'⟩ hregion
    simp only [ProxyNode.selectable, hstate, hcredential', hcooldown', hcredential, hcooldown,
      hregion, Bool.and_true, decide_eq_true_eq]
  constructor
  · rintro ⟨hassign, -⟩
    exact (hselectable n none ⟨rfl, rfl, rfl⟩ rfl).mp (hassign n hn)
  · intro hactive
    constructor
    · intro m hm
      obtain rfl : n = m := Option.some.inj (hn.symm.trans hm)
      exact (hselectable n none ⟨rfl, rfl, rfl⟩ rfl).mpr hactive
    · intro configured merged m region hmerged hm hregion
      obtain ⟨m', hm', hterms⟩ := mergeConfigured_terms hmerged hn
      obtain rfl : m = m' := Option.some.inj (hm.symm.trans hm')
      exact (hselectable m region hterms hregion).mpr hactive

/-! ## Runs -/

/-- `waits` says whether the node waits for a registration: an active node does
not, a cooling one does. -/
structure Tracks (id : String) (waits : Bool) (p : Pool) : Prop where
  absent : p.node? id = none → waits = false
  active : ∀ n, p.node? id = some n → n.state = .active → waits = false
  cooldown : ∀ n, p.node? id = some n → n.state = .cooldown → waits = true

theorem Tracks.of_node {id : String} {waits : Bool} {p : Pool} {n : ProxyNode}
    (hn : p.node? id = some n) (hactive : n.state = .active → waits = false)
    (hcooldown : n.state = .cooldown → waits = true) : Tracks id waits p := by
  constructor
  · intro hnone
    rw [hn] at hnone
    cases hnone
  · intro m hm hstate
    obtain rfl : n = m := Option.some.inj (hn.symm.trans hm)
    exact hactive hstate
  · intro m hm hstate
    obtain rfl : n = m := Option.some.inj (hn.symm.trans hm)
    exact hcooldown hstate

/-- A call that registers a node reports no failure. -/
theorem reported_of_registered {r : PoolRequest} {p : Pool} {id : String}
    (h : registered tables r p = some id) : reported r p = none := by
  obtain ⟨x, call⟩ := r
  cases call with
  | register => rfl
  | _ => cases h

theorem blocks_eq_false {r : PoolRequest} {p : Pool} {id : String}
    (hreported : reported r p = none) : blocks r p id = false := by
  simp only [blocks, hreported]

/-- A failure report either blocks its node or leaves no node cooling that was
not. -/
theorem Failure.next_cases {r : PoolRequest} {p : Pool} {n : ProxyNode} {f : Failure}
    (hn : p.node? n.id = some n) (hreported : reported r p = some f) (hid : f.nodeId = n.id) :
    (blocks r p n.id = true ∧ f.next n = .cooldown) ∨
      (blocks r p n.id = false ∧ (f.next n = n.state ∨ f.next n = .offline)) := by
  simp only [blocks, hreported, hn, hid, decide_true, Bool.true_and]
  unfold Failure.next
  by_cases hspared : f.sparesRevoked = true ∧ n.state = .revoked
  · exact Or.inr ⟨by simp [hspared.1, hspared.2], Or.inl (if_pos hspared)⟩
  · rw [if_neg hspared]
    by_cases hblocked : f.outcome = some "blocked"
    · refine Or.inl ⟨?_, if_pos hblocked⟩
      rw [not_and_or] at hspared
      simpa [hblocked] using hspared
    · refine Or.inr ⟨by simp [hblocked], ?_⟩
      rw [if_neg hblocked]
      split
      · exact Or.inr rfl
      · exact Or.inl rfl

/-- A call registers the node, blocks it, or does neither and then leaves it
cooling or active only if it was. -/
theorem nextState_cases {r : PoolRequest} {p : Pool} {n : ProxyNode}
    (hn : p.node? n.id = some n) :
    (registered tables r p = some n.id ∧ blocks r p n.id = false ∧
        (nextState tables r p n = .active ∨ nextState tables r p n = .revoked)) ∨
      (blocks r p n.id = true ∧ nextState tables r p n = .cooldown) ∨
      (registered tables r p ≠ some n.id ∧ blocks r p n.id = false ∧
        (nextState tables r p n = n.state ∨ nextState tables r p n = .revoked ∨
          nextState tables r p n = .offline)) := by
  unfold nextState
  by_cases hregistered : registered tables r p = some n.id
  · refine Or.inl ⟨hregistered, blocks_eq_false (reported_of_registered tables hregistered), ?_⟩
    rw [if_pos hregistered]
    split
    · exact Or.inr rfl
    · exact Or.inl rfl
  · rw [if_neg hregistered]
    refine Or.inr ?_
    cases hreported : reported r p with
    | none =>
        refine Or.inr ⟨hregistered, blocks_eq_false hreported, ?_⟩
        split
        · exact Or.inr (Or.inl rfl)
        · exact Or.inl rfl
    | some f =>
        rw [(quiet_of_reported tables hreported).2, if_neg (by simp)]
        dsimp only
        by_cases hid : f.nodeId = n.id
        · rw [if_pos hid]
          rcases Failure.next_cases hn hreported hid with hblocks | ⟨hkeeps, hnext⟩
          · exact Or.inl hblocks
          · exact Or.inr ⟨hregistered, hkeeps, hnext.imp_right Or.inr⟩
        · rw [if_neg hid]
          refine Or.inr ⟨hregistered, ?_, Or.inl rfl⟩
          simp [blocks, hreported, hn, hid]

theorem tracks_step {id : String} {waits : Bool} {p : Pool} (r : PoolRequest)
    (h : Tracks id waits p) :
    Tracks id (blocks r p id || (waits && decide (registered tables r p ≠ some id)))
      (step tables url r p) := by
  have hmoves := step_moves tables url r p
  cases hn : p.node? id with
  | none =>
      have hwaits := h.absent hn
      have hblocks : blocks r p id = false := by
        unfold blocks
        rw [hn]
        cases reported r p <;> rfl
      simp only [hblocks, hwaits, Bool.false_and, Bool.or_false]
      refine ⟨fun _ => rfl, fun _ _ _ => rfl, ?_⟩
      intro n' hn' hstate
      rw [hmoves.new id n' hn hn'] at hstate
      cases hstate
  | some n =>
      obtain ⟨n', hn', hnext⟩ := hmoves.old id n hn
      have hid : n.id = id := (node?_eq_some.mp hn).2
      subst hid
      refine Tracks.of_node hn' ?_ ?_ <;> rw [hnext]
      · intro hactive
        rcases nextState_cases tables (r := r) hn with
          ⟨hregistered, hblocks, -⟩ | ⟨-, hcooling⟩ | ⟨-, hblocks, hsame | hrevoked | hoffline⟩
        · simp [hregistered, hblocks]
        · rw [hcooling] at hactive
          cases hactive
        · simp [hblocks, h.active n hn (hsame.symm.trans hactive)]
        · rw [hrevoked] at hactive
          cases hactive
        · rw [hoffline] at hactive
          cases hactive
      · intro hcooling
        rcases nextState_cases tables (r := r) hn with
          ⟨-, -, hactive | hrevoked⟩ | ⟨hblocks, -⟩ | ⟨hregistered, hblocks, hsame | hrevoked | hoffline⟩
        · rw [hactive] at hcooling
          cases hcooling
        · rw [hrevoked] at hcooling
          cases hcooling
        · simp [hblocks]
        · simp [hblocks, hregistered, h.cooldown n hn (hsame.symm.trans hcooling)]
        · rw [hrevoked] at hcooling
          cases hcooling
        · rw [hoffline] at hcooling
          cases hcooling

theorem tracks_run {id : String} (calls : List PoolRequest) {waits : Bool} {p : Pool}
    (h : Tracks id waits p) :
    Tracks id (awaitsRegistration tables url id waits p calls) (run tables url p calls) := by
  induction calls generalizing waits p with
  | nil => exact h
  | cons r calls ih => exact ih (tracks_step tables url r h)

theorem tracks_empty (id : String) (store : Store) : Tracks id false { store } := by
  refine ⟨fun _ => rfl, fun _ _ _ => rfl, ?_⟩
  intro n hn
  cases hn

/-- In every run from a pool without nodes: a node that is neither revoked nor
offline, whose credential is valid and whose cooldown is over is a candidate
again exactly when it has been registered since it was last reported blocked. -/
theorem candidate_again_iff (store : Store) (calls : List PoolRequest) (n : ProxyNode)
    (hn : n ∈ (run tables url { store } calls).nodes) (hrevoked : n.state ≠ .revoked)
    (hoffline : n.state ≠ .offline) (now : Time)
    (hcredential : n.credentialExpiresAt.all (now < ·) = true)
    (hcooldown : n.cooldownUntil.all (· ≤ now) = true) :
    Candidate n.id now (run tables url { store } calls) ↔
      awaitsRegistration tables url n.id false { store } calls = false := by
  have htracks := tracks_run tables url calls (tracks_empty n.id store)
  rw [candidate_iff (node?_self hn) hcredential hcooldown]
  constructor
  · exact htracks.active n (node?_self hn)
  · intro hwaits
    cases hstate : n.state with
    | active => rfl
    | cooldown =>
        rw [htracks.cooldown n (node?_self hn) hstate] at hwaits
        cases hwaits
    | revoked => exact absurd hstate hrevoked
    | offline => exact absurd hstate hoffline

namespace Sample

def configured : List ConfiguredProxy :=
  [{ id := "node-a", endpoint := "https://a.example:9443" }]

/-- A configured node is merged and reported blocked for five minutes. -/
def blockedOnce : List PoolRequest :=
  [⟨{ now := 0 }, .select configured "https://example.com:443" none none none⟩,
    ⟨{ now := seconds 1 }, .markFailure "node-a" "blocked" 300 3 none none⟩]

/-- A minute after the cooldown the node is in the pool, neither revoked nor
offline and without expiry, and no selection hands it out. -/
theorem cooldown_stays :
    ((run asciiTables CrawlTrove.Sample.identity {} blockedOnce).node? "node-a").map (fun n =>
        (n.state, n.credentialExpiresAt, n.cooldownUntil)) =
        some (.cooldown, none, some (seconds 301)) ∧
      handsOut asciiTables CrawlTrove.Sample.identity
        ⟨{ now := seconds 361 }, .select configured "https://example.com:443" none none none⟩
        (run asciiTables CrawlTrove.Sample.identity {} blockedOnce) = none := by
  decide

/-- Before the failure the node is a candidate. -/
theorem candidate_again_configured :
    Candidate "node-a" (seconds 1)
        (run asciiTables CrawlTrove.Sample.identity {} (blockedOnce.take 1)) ↔
      awaitsRegistration asciiTables CrawlTrove.Sample.identity "node-a" false {}
        (blockedOnce.take 1) = false :=
  candidate_again_iff asciiTables CrawlTrove.Sample.identity {} (blockedOnce.take 1)
    { id := "node-a", endpoint := "https://a.example:9443", regions := [], state := .active
      credentialExpiresAt := none } (by show _ ∈ Table.rows _; decide) (by decide) (by decide) (seconds 1)
    (by decide) (by decide)

end Sample

end CrawlTrove.Proxies
