import CrawlTrove.Proxies.Runs

/-!
# Revoked nodes

`register` and `mark_failure` leave a revoked node revoked. `proxy_failure`
does not look at the state: a worker that leased the node before it was revoked
can report it blocked, and the node is back in the pool at its next
registration. The outcome need not be one of the two the function names: NULL
passes its check and counts as a failure that is not blocked.
-/

namespace CrawlTrove.Proxies

open Relational Transaction

variable (tables : HostTables) (url : UrlIdentity)

def Revoked (id : String) (p : Pool) : Prop := ∃ n, p.node? id = some n ∧ n.state = .revoked

instance (id : String) (p : Pool) : Decidable (Revoked id p) :=
  decidable_of_iff ((p.node? id).any fun n => decide (n.state = .revoked)) <| by
    cases h : p.node? id <;> simp [Revoked, h]

/-- A worker reports a revoked node that its task's lease row still names, as
blocked or, with any other outcome that is accepted, with as many failures as
the threshold takes a node offline at. -/
def LiftsRevocation (r : PoolRequest) (p : Pool) : Prop :=
  ∃ f n, reported r p = some f ∧ f.sparesRevoked = false ∧ p.node? f.nodeId = some n ∧
    n.state = .revoked ∧ (f.outcome = some "blocked" ∨ n.exhausts f.offlineAfter = true)

/-- In every state of the run, what is revoked stays revoked and is not handed
out by the next call. -/
def RevocationKept (p : Pool) (calls : List PoolRequest) : Prop :=
  ∀ before mid rest, calls = before ++ mid ++ rest → ∀ id,
    Revoked id (run tables url p before) →
      Revoked id (run tables url p (before ++ mid)) ∧
        ∀ r ∈ rest.head?, handsOut tables url r (run tables url p (before ++ mid)) ≠ some id

/-! ## One call -/

theorem nextState_revoked {r : PoolRequest} {p : Pool} {n : ProxyNode}
    (hn : p.node? n.id = some n) (hstate : n.state = .revoked) (hkept : ¬ LiftsRevocation r p) :
    nextState tables r p n = .revoked := by
  unfold nextState
  by_cases hregistered : registered tables r p = some n.id
  · rw [if_pos hregistered, if_pos hstate]
  · rw [if_neg hregistered]
    by_cases hrevoked : revoked r = some n.id
    · exact if_pos hrevoked
    · rw [if_neg hrevoked]
      cases hreported : reported r p with
      | none => exact hstate
      | some f =>
          dsimp only
          by_cases hid : f.nodeId = n.id
          · rw [if_pos hid]
            cases hspares : f.sparesRevoked with
            | true => simp [Failure.next, hspares, hstate]
            | false =>
                -- a report that does not spare the node must be harmless
                have hharmless : ¬ (f.outcome = some "blocked" ∨ n.exhausts f.offlineAfter = true) :=
                  fun hlifts => hkept ⟨f, n, hreported, hspares, hid ▸ hn, hstate, hlifts⟩
                rw [not_or] at hharmless
                simp [Failure.next, hspares, hstate, hharmless.1, hharmless.2]
          · exact (if_neg hid).trans hstate

theorem revoked_step {r : PoolRequest} {p : Pool} {id : String} (hkept : ¬ LiftsRevocation r p)
    (h : Revoked id p) : Revoked id (step tables url r p) := by
  obtain ⟨n, hn, hstate⟩ := h
  obtain ⟨n', hn', hnext⟩ := (step_moves tables url r p).old id n hn
  have hself := node?_self (node?_eq_some.mp hn).1
  exact ⟨n', hn', hnext.trans (nextState_revoked tables hself hstate hkept)⟩

theorem not_revoked_step {r : PoolRequest} {p : Pool} (h : LiftsRevocation r p) :
    ∃ id, Revoked id p ∧ ¬ Revoked id (step tables url r p) := by
  obtain ⟨f, n, hreported, hspares, hn, hstate, hlifts⟩ := h
  refine ⟨f.nodeId, ⟨n, hn, hstate⟩, ?_⟩
  rintro ⟨m, hm, hrevoked⟩
  obtain ⟨n', hn', hnext⟩ := (step_moves tables url r p).old _ n hn
  obtain rfl : m = n' := Option.some.inj (hm.symm.trans hn')
  obtain ⟨hregistered, hnone⟩ := quiet_of_reported tables hreported
  have hid : f.nodeId = n.id := (node?_eq_some.mp hn).2.symm
  rw [nextState_eq tables hregistered hnone, hreported] at hnext
  simp only [hid, if_true] at hnext
  rw [hnext] at hrevoked
  unfold Failure.next at hrevoked
  rcases hlifts with hblocked | hcount
  · simp [hspares, hblocked] at hrevoked
  · by_cases hblocked : f.outcome = some "blocked"
    · simp [hspares, hblocked] at hrevoked
    · simp [hspares, hblocked, hcount] at hrevoked

theorem active_of_free {x : PoolTxn} {region : Option String} {n : ProxyNode}
    (h : n.free x region = true) : n.state = .active := by
  simp only [ProxyNode.free, ProxyNode.selectable, Bool.and_eq_true, decide_eq_true_eq] at h
  exact h.1.1.1.1

/-- A call that hands out a node has committed with its id. -/
theorem handsOut_eq_some {r : PoolRequest} {p : Pool} {id : String}
    (h : handsOut tables url r p = some id) :
    ∃ p', r.call.body tables url r.txn p = .ok (some id, p') := by
  unfold handsOut commit at h
  cases hbody : r.call.body tables url r.txn p with
  | error e => simp [hbody] at h
  | ok a =>
      obtain ⟨a, p'⟩ := a
      simp only [hbody] at h
      exact ⟨p', by rw [h]⟩

/-- Only `select` and `assign_proxy` hand out a node, and its state before was
active unless the call has added it. -/
theorem active_of_handsOut {r : PoolRequest} {p : Pool} {id : String} {n : ProxyNode}
    (h : handsOut tables url r p = some id) (hn : p.node? id = some n) : n.state = .active := by
  obtain ⟨p', hbody⟩ := handsOut_eq_some tables url h
  obtain ⟨x, call⟩ := r
  cases call with
  | select configured originKey region taskId token =>
      obtain ⟨selection, hrun, hid⟩ := map_ok.mp hbody
      obtain ⟨selection, rfl, rfl⟩ := Option.map_eq_some_iff.mp hid
      obtain ⟨q, ⟨merged, hmerged, rfl⟩, -, hchosen⟩ := select_cases hrun
      obtain ⟨-, node, hfirst, hid, -⟩ := hchosen selection rfl
      obtain ⟨hmem, hfree⟩ := first_eq_some hfirst
      have hnode : merged.node? selection.nodeId = some node := node?_eq_some.mpr ⟨hmem, hid⟩
      obtain ⟨m, hm, hstate⟩ := (mergeConfigured_moves hmerged).old _ n hn
      obtain rfl : m = node := Option.some.inj (hm.symm.trans hnode)
      exact hstate.symm.trans (active_of_free hfree)
  | assignProxy role fence originKey =>
      obtain ⟨node, hrun, hid⟩ := map_ok.mp hbody
      obtain ⟨node, rfl, rfl⟩ := Option.map_eq_some_iff.mp hid
      obtain ⟨hmem, hfree⟩ := (assignProxy_cases hrun).2 node rfl
      obtain rfl : n = node := node_eq_of_id (node?_eq_some.mp hn).1 hmem (node?_eq_some.mp hn).2
      exact active_of_free hfree
  | _ => simp [PoolCall.body, map_ok] at hbody

theorem not_revoked_of_handsOut {r : PoolRequest} {p : Pool} {id : String}
    (h : handsOut tables url r p = some id) : ¬ Revoked id p := by
  rintro ⟨n, hn, hstate⟩
  have hactive := active_of_handsOut tables url h hn
  rw [hstate] at hactive
  cases hactive

/-! ## Runs -/

theorem revoked_run {p : Pool} {calls : List PoolRequest} {id : String}
    (hkept : StepsMeet (step tables url) (fun r p => ¬ LiftsRevocation r p) p calls)
    (h : Revoked id p) : Revoked id (run tables url p calls) :=
  runFrom_invariant (fun _ _ => revoked_step tables url) hkept h

/-- Revocations are kept exactly in the runs in which no worker reports a
revoked node that its task's lease row still names. -/
theorem revocation_kept_iff (p : Pool) (calls : List PoolRequest) :
    RevocationKept tables url p calls ↔
      StepsMeet (step tables url) (fun r p => ¬ LiftsRevocation r p) p calls := by
  constructor
  · intro h
    induction calls generalizing p with
    | nil => trivial
    | cons r calls ih =>
        constructor
        · intro hlifts
          obtain ⟨id, hrevoked, hlost⟩ := not_revoked_step tables url hlifts
          exact hlost (h [] [r] calls rfl id hrevoked).1
        · refine ih _ ?_
          rintro before mid rest rfl id hrevoked
          exact h (r :: before) mid rest rfl id hrevoked
  · rintro h before mid rest rfl id hrevoked
    rw [List.append_assoc, stepsMeet_append] at h
    obtain ⟨-, h⟩ := h
    rw [stepsMeet_append] at h
    have hstays : Revoked id (run tables url p (before ++ mid)) := by
      rw [run, runFrom_append]
      exact revoked_run tables url h.1 hrevoked
    refine ⟨hstays, ?_⟩
    intro r _ hout
    exact not_revoked_of_handsOut tables url hout hstays

namespace Sample

/-- The node is leased to the remote worker's task and then revoked; the worker
reports it blocked, it registers again, and a selection hands it out. -/
def revokedAndReported : List PoolRequest :=
  [crawl enrol, crawl CrawlTrove.Sample.submit, register 0 "node-a" "a.example:9443",
    crawl CrawlTrove.Sample.remoteClaim, assign 2, ⟨{ now := seconds 3 }, .revoke "node-a"⟩,
    report 4 (some "blocked") (some 3), register 5 "node-a" "a.example:9443",
    ⟨{ now := seconds 400 }, .select [] "https://example.com:443" none none none⟩]

/-- Revoked after six calls, not after seven, and handed out by the last. -/
theorem revocation_lost :
    Revoked "node-a" (run asciiTables CrawlTrove.Sample.identity {} (revokedAndReported.take 6)) ∧
      ¬ Revoked "node-a" (run asciiTables CrawlTrove.Sample.identity {} (revokedAndReported.take 7)) ∧
      (revokedAndReported[8]?.bind fun r => handsOut asciiTables CrawlTrove.Sample.identity r
        (run asciiTables CrawlTrove.Sample.identity {} (revokedAndReported.take 8))) = some "node-a" := by
  decide

/-- Neither named outcome: NULL is accepted, and a threshold of one is reached. -/
example : ((run asciiTables CrawlTrove.Sample.identity {}
    (revokedAndReported.take 6 ++ [report 4 none (some 1)])).node? "node-a").map (·.state) =
      some .offline := by
  decide

end Sample

end CrawlTrove.Proxies
