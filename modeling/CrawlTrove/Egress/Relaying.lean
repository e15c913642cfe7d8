import CrawlTrove.Egress.Relay

/-!
# What a tunnel keeps

In every run each loop has written a prefix of what it read and the agent stays within its
budget. What a loop may leave behind is decided when it ends, and when bytes arrive after
that.
-/

namespace CrawlTrove.Egress.Relay

open Artifacts (Bytes)

variable {L : Limits} {s s' : State} {c c' : Component} {d d' : Direction}

namespace Direction

@[simp] theorem first_eq_last : (d.first = d.last) = False := by cases d <;> simp [first, last]

@[simp] theorem last_eq_first : (d.last = d.first) = False := by cases d <;> simp [first, last]

theorem eq_first_or_last (c : Component) (d : Direction) : c = d.first ∨ c = d.last := by
  cases c <;> cases d <;> simp [first, last]

end Direction

/-- The loop has written everything it took. -/
def Phase.whole : Phase → Bool
  | .reading => true
  | .draining whole => whole
  | .stopped => false

namespace State

theorem setLoop_loops (s : State) (c c' : Component) (d d' : Direction) (loop : Loop) :
    (s.setLoop c d loop).loops c' d' = if c' = c ∧ d' = d then loop else s.loops c' d' := by
  by_cases hc : c' = c
  · subst hc
    by_cases hd : d' = d
    · subst hd
      simp [setLoop]
    · simp [setLoop, hd]
  · simp [setLoop, hc]

@[simp] theorem setLoop_self (s : State) (c : Component) (d : Direction) (loop : Loop) :
    (s.setLoop c d loop).loops c d = loop := by simp [setLoop]

theorem source_first (s : State) (d : Direction) : s.source d.first d = s.arrivals d := by
  simp [source]

theorem source_last (s : State) (d : Direction) :
    s.source d.last d = (s.loops d.first d).sent := by simp [source]

end State

/-! ## The invariant -/

structure Inv (L : Limits) (s : State) : Prop where
  chained : ∀ c d, (s.loops c d).sent <+: s.source c d
  counted : ∀ c d, (s.loops c d).phase.whole = true →
    (s.loops c d).taken = (s.loops c d).sent.length
  spent : ∀ c d, (s.loops c d).phase = .draining false → c = .agent ∧ L.maxTunnelBytes ≤ s.used
  tally : s.used = (s.loops .agent .up).sent.length + (s.loops .agent .down).sent.length
  within : s.used ≤ L.maxTunnelBytes
  shut : ∀ c d, s.closed c = true → s.hasStopped c d

namespace Inv

theorem start : Inv L start where
  chained c d := List.nil_prefix
  counted _ _ _ := rfl
  spent _ _ h := by simp [Relay.start] at h
  tally := rfl
  within := L.bytes_pos.le
  shut _ _ h := by simp [Relay.start] at h

theorem first_prefix (h : Inv L s) (d : Direction) :
    (s.loops d.first d).sent <+: s.arrivals d := by
  have := h.chained d.first d
  rwa [s.source_first] at this

theorem last_prefix (h : Inv L s) (d : Direction) :
    (s.loops d.last d).sent <+: (s.loops d.first d).sent := by
  have := h.chained d.last d
  rwa [s.source_last] at this

theorem sent_prefix (h : Inv L s) (c : Component) (d : Direction) :
    (s.loops c d).sent <+: s.arrivals d := by
  obtain rfl | rfl := Direction.eq_first_or_last c d
  · exact h.first_prefix d
  · exact (h.last_prefix d).trans (h.first_prefix d)

/-- What the last loop delivered has gone through every loop. -/
theorem sent_of_delivered (h : Inv L s) (hd : s.delivered d = s.arrivals d) (c : Component) :
    (s.loops c d).sent = s.arrivals d := by
  obtain rfl | rfl := Direction.eq_first_or_last c d
  · have hpre := h.last_prefix d
    rw [show (s.loops d.last d).sent = s.arrivals d from hd] at hpre
    exact (h.first_prefix d).eq_of_length_le hpre.length_le
  · exact hd

/-- A loop that has written all it took stands in its source where its count says. -/
theorem sent_eq_take (h : Inv L s) (hw : (s.loops c d).phase.whole = true) :
    (s.loops c d).sent = (s.source c d).take (s.loops c d).taken := by
  rw [h.counted c d hw]
  exact List.prefix_iff_eq_take.mp (h.chained c d)

/-- The invariant reads these parts of the state. -/
theorem congr (h : Inv L s) (harr : s'.arrivals = s.arrivals) (hloops : s'.loops = s.loops)
    (hused : s'.used = s.used) (hclosed : s'.closed = s.closed) : Inv L s' := by
  obtain ⟨hchain, hcount, hspent, htally, hwithin, hshut⟩ := h
  constructor
  · simpa only [State.source, harr, hloops] using hchain
  · simpa only [hloops] using hcount
  · simpa only [hloops, hused] using hspent
  · simpa only [hloops, hused] using htally
  · simpa only [hused] using hwithin
  · simpa only [State.hasStopped, hloops, hclosed] using hshut

/-- One loop moves on within its source. -/
theorem setLoop (h : Inv L s) {loop : Loop} {used : ℕ}
    (grows : (s.loops c d).sent <+: loop.sent) (fits : loop.sent <+: s.source c d)
    (counted : loop.phase.whole = true → loop.taken = loop.sent.length)
    (spent : loop.phase = .draining false → c = .agent ∧ L.maxTunnelBytes ≤ used)
    (tally : c = .agent → used + (s.loops c d).sent.length = s.used + loop.sent.length)
    (idle : c = .bridge → used = s.used) (within : used ≤ L.maxTunnelBytes)
    (shut : s.closed c = true → loop.phase = .stopped) :
    Inv L { s.setLoop c d loop with used := used } := by
  have mono : s.used ≤ used := by
    cases c with
    | bridge => exact (idle rfl).ge
    | agent =>
      have := tally rfl
      have := grows.length_le
      omega
  constructor
  · intro c' d'
    change ((s.setLoop c d loop).loops c' d').sent <+: (s.setLoop c d loop).source c' d'
    by_cases hsame : c' = c ∧ d' = d
    · obtain ⟨rfl, rfl⟩ := hsame
      rw [State.setLoop_self]
      refine fits.trans ?_
      obtain rfl | rfl := Direction.eq_first_or_last c' d'
      · simp [State.source, State.setLoop]
      · simp [State.source, State.setLoop_loops]
    · rw [State.setLoop_loops, if_neg hsame]
      refine (h.chained c' d').trans ?_
      obtain rfl | rfl := Direction.eq_first_or_last c' d'
      · simp [State.source, State.setLoop]
      · rw [State.source_last, State.source_last, State.setLoop_loops]
        split
        · next hfirst =>
          obtain ⟨rfl, rfl⟩ := hfirst
          exact grows
        · exact List.prefix_rfl
  · intro c' d' hw
    change ((s.setLoop c d loop).loops c' d').phase.whole = true at hw
    change ((s.setLoop c d loop).loops c' d').taken =
      ((s.setLoop c d loop).loops c' d').sent.length
    rw [State.setLoop_loops] at hw ⊢
    split at hw
    · next hsame =>
      rw [if_pos hsame]
      exact counted hw
    · next hne =>
      rw [if_neg hne]
      exact h.counted c' d' hw
  · intro c' d' hp
    change ((s.setLoop c d loop).loops c' d').phase = _ at hp
    rw [State.setLoop_loops] at hp
    split at hp
    · next hsame =>
      obtain ⟨rfl, -⟩ := hsame
      exact spent hp
    · exact (h.spent c' d' hp).imp_right fun hmax => hmax.trans mono
  · change used = ((s.setLoop c d loop).loops _ _).sent.length +
      ((s.setLoop c d loop).loops _ _).sent.length
    have htally := h.tally
    rw [State.setLoop_loops, State.setLoop_loops]
    cases c with
    | bridge => simpa [idle rfl] using htally
    | agent =>
      have hgrown := tally rfl
      cases d <;> simp <;> omega
  · exact within
  · intro c' d' hclosed
    change ((s.setLoop c d loop).loops c' d').phase = _
    rw [State.setLoop_loops]
    split
    · next hsame =>
      obtain ⟨rfl, rfl⟩ := hsame
      exact shut hclosed
    · exact h.shut c' d' hclosed

/-- One loop changes its phase only. -/
theorem rephase (h : Inv L s) {phase : Phase}
    (whole : phase.whole = true → (s.loops c d).phase.whole = true)
    (drains : phase ≠ .draining false) (shut : s.closed c = true → phase = .stopped) :
    Inv L (s.setLoop c d { s.loops c d with phase := phase }) :=
  h.setLoop List.prefix_rfl (h.chained c d)
    (fun hw => h.counted c d (whole hw)) (fun hp => absurd hp drains) (fun _ => rfl)
    (fun _ => rfl) h.within shut

theorem stop (h : Inv L s) (c : Component) (d : Direction) : Inv L (s.stop c d) :=
  h.rephase (by simp [Phase.whole]) (by simp) (fun _ => rfl)

theorem not_closed (h : Inv L s) (hp : (s.loops c d).phase ≠ .stopped) : s.closed c ≠ true :=
  fun hclosed => hp (h.shut c d hclosed)

end Inv

/-! ## What a step does -/

namespace State

theorem shut_loops (s : State) (c c' : Component) (d : Direction) :
    (s.shut c).loops c' d =
      if c' = c then { s.loops c' d with phase := .stopped } else s.loops c' d := by
  by_cases hc : c' = c
  · subst hc
    simp [shut]
  · simp [shut, hc]

@[simp] theorem shut_sent (s : State) (c c' : Component) (d : Direction) :
    ((s.shut c).loops c' d).sent = (s.loops c' d).sent := by
  rw [shut_loops]
  split <;> rfl

@[simp] theorem shut_source (s : State) (c c' : Component) (d : Direction) :
    (s.shut c).source c' d = s.source c' d := by
  simp only [source, shut_sent]
  rfl

end State

theorem chunk_cases {n : ℕ} (hs : chunk L s c d n = some s') :
    (s.loops c d).phase = .reading ∧ 0 < n ∧
    (s.loops c d).taken + n ≤ (s.source c d).length ∧
    s' = { s.setLoop c d
        { taken := (s.loops c d).taken + n
          sent := (s.loops c d).sent ++
            ((s.source c d).drop (s.loops c d).taken).take (allowance L s c n)
          phase := if allowance L s c n = 0 then .stopped
            else .draining (allowance L s c n = n) } with
      used := spend s c (allowance L s c n)
      lastActive := s.now } := by
  simp only [chunk, Option.ite_none_right_eq_some, Option.some.injEq] at hs
  obtain ⟨⟨hread, hpos, -, hfits⟩, rfl⟩ := hs
  exact ⟨hread, hpos, hfits, rfl⟩

theorem drained_cases (hs : drained L s c d = some s') :
    ∃ whole, (s.loops c d).phase = .draining whole ∧
      ((c = .bridge ∨ whole = true ∧ s.used < L.maxTunnelBytes) ∧
        s' = { s.setLoop c d { s.loops c d with phase := .reading } with
          since := Function.update s.since d s.now } ∨
      c = .agent ∧ (whole = false ∨ L.maxTunnelBytes ≤ s.used) ∧ s' = s.stop c d) := by
  unfold drained at hs
  split at hs
  · next whole hphase =>
    refine ⟨whole, hphase, ?_⟩
    split at hs
    · next hon => exact .inl ⟨hon, (Option.some.inj hs).symm⟩
    · next hoff =>
      simp only [not_or, not_and, not_lt] at hoff
      have hagent : c = .agent := by
        cases c with
        | bridge => exact absurd rfl hoff.1
        | agent => rfl
      refine .inr ⟨hagent, ?_, (Option.some.inj hs).symm⟩
      cases whole with
      | false => exact .inl rfl
      | true => exact .inr (hoff.2 rfl)
  · exact absurd hs (by simp)

theorem fails_cases (hs : fails s c d = some s') :
    ∃ whole, (s.loops c d).phase = .draining whole ∧
      s' = { s.stop c d with
        failed := Function.update s.failed d
          (s.failed d || decide (c = d.last) || !s.closed d.last)
        raised := s.raised || decide (c = .agent) } := by
  unfold fails at hs
  split at hs
  · next whole hphase => exact ⟨whole, hphase, (Option.some.inj hs).symm⟩
  · exact absurd hs (by simp)

theorem eof_cases (hs : eof s c d = some s') :
    (s.loops c d).phase = .reading ∧ (s.loops c d).taken = (s.source c d).length ∧
    s.sourceEnded c d = true ∧
    s' = { s.stop c d with raised := s.raised || decide (c = .agent ∧ d = .down) } := by
  simp only [eof, Option.ite_none_right_eq_some, Option.some.injEq] at hs
  exact ⟨hs.1.1, hs.1.2.1, hs.1.2.2, hs.2.symm⟩

theorem readFails_cases (hs : readFails s c d = some s') :
    s' = { s.stop c d with raised := s.raised || decide (c = .agent) } := by
  simp only [readFails, Option.ite_none_right_eq_some, Option.some.injEq] at hs
  exact hs.2.symm

theorem timeout_cases (hs : timeout L s d = some s') :
    (s.loops .agent d).phase = .reading ∧
    s' = { s.stop .agent d with
      idled := s.idled || decide (L.idleTimeout ≤ s.now - s.lastActive) } := by
  simp only [timeout, Option.ite_none_right_eq_some, Option.some.injEq] at hs
  exact ⟨hs.1.1, hs.2.symm⟩

theorem cancel_cases (hs : cancel s d = some s') :
    ¬ s.hasStopped .bridge d ∧ s' = s.stop .bridge d := by
  simp only [cancel, Option.ite_none_right_eq_some, Option.some.injEq] at hs
  exact ⟨hs.1.2, hs.2.symm⟩

theorem close_cases (hs : close s c = some s') :
    ((∀ d, s.hasStopped c d) ∨ c = .agent ∧ s.raised = true) ∧
    s' = s.shut c := by
  simp only [close, Option.ite_none_right_eq_some, Option.some.injEq] at hs
  obtain ⟨⟨-, hover⟩, rfl⟩ := hs
  refine ⟨hover.imp_left fun h d => ?_, rfl⟩
  cases d with
  | up => exact h.1
  | down => exact h.2

/-! ## Every step keeps the invariant -/

theorem allowance_le (L : Limits) (s : State) (c : Component) (n : ℕ) :
    allowance L s c n ≤ n := by
  cases c with
  | bridge => exact le_rfl
  | agent => exact Nat.min_le_left _ _

/-- Only the agent cuts a chunk, and then the budget is spent. -/
theorem allowance_cut {n : ℕ} (h : allowance L s c n ≠ n) :
    c = .agent ∧ L.maxTunnelBytes ≤ spend s c (allowance L s c n) := by
  cases c with
  | bridge => exact absurd rfl h
  | agent =>
    refine ⟨rfl, ?_⟩
    simp only [allowance, spend] at h ⊢
    omega

theorem spend_le (h : s.used ≤ L.maxTunnelBytes) (n : ℕ) :
    spend s c (allowance L s c n) ≤ L.maxTunnelBytes := by
  cases c with
  | bridge => exact h
  | agent =>
    simp only [spend, allowance]
    omega

namespace Inv

theorem chunk {n : ℕ} (h : Inv L s) (hs : chunk L s c d n = some s') : Inv L s' := by
  obtain ⟨hread, hpos, hfits, rfl⟩ := chunk_cases hs
  have hw : (s.loops c d).phase.whole = true := by rw [hread]; rfl
  have hle := allowance_le L s c n
  have hlen : (((s.source c d).drop (s.loops c d).taken).take (allowance L s c n)).length =
      allowance L s c n := by
    rw [List.length_take, List.length_drop]
    omega
  refine (h.setLoop (List.prefix_append _ _) ?_ ?_ ?_ ?_ ?_ (spend_le h.within n) ?_).congr
    rfl rfl rfl rfl
  · rw [h.sent_eq_take hw, ← List.take_add]
    exact List.take_prefix _ _
  · intro hphase
    have hall : allowance L s c n = n := by
      by_contra hcut
      simp only [hcut, decide_false] at hphase
      split at hphase <;> simp [Phase.whole] at hphase
    rw [List.length_append, hlen, hall, h.counted c d hw]
  · intro hphase
    apply allowance_cut
    intro hall
    rw [hall, if_neg hpos.ne'] at hphase
    simp at hphase
  · rintro rfl
    rw [List.length_append, hlen]
    simp only [spend]
    omega
  · rintro rfl
    rfl
  · intro hclosed
    exact absurd hclosed (h.not_closed (d := d) (by simp [hread]))

theorem drained (h : Inv L s) (hs : drained L s c d = some s') : Inv L s' := by
  obtain ⟨whole, hphase, ⟨hon, rfl⟩ | ⟨-, -, rfl⟩⟩ := drained_cases hs
  · have hwhole : whole = true := by
      by_contra hcut
      rw [Bool.not_eq_true] at hcut
      subst hcut
      obtain ⟨rfl, -⟩ := h.spent c d hphase
      simp at hon
    subst hwhole
    have hreads : Inv L (s.setLoop c d { s.loops c d with phase := .reading }) := by
      refine h.rephase (fun _ => ?_) (by simp) fun hclosed => ?_
      · rw [hphase]
        rfl
      · exact absurd hclosed (h.not_closed (d := d) (by simp [hphase]))
    exact hreads.congr rfl rfl rfl rfl
  · exact h.stop c d

theorem fails (h : Inv L s) (hs : fails s c d = some s') : Inv L s' := by
  obtain ⟨-, -, rfl⟩ := fails_cases hs
  exact (h.stop c d).congr rfl rfl rfl rfl

theorem eof (h : Inv L s) (hs : eof s c d = some s') : Inv L s' := by
  obtain ⟨-, -, -, rfl⟩ := eof_cases hs
  exact (h.stop c d).congr rfl rfl rfl rfl

theorem readFails (h : Inv L s) (hs : readFails s c d = some s') : Inv L s' := by
  obtain rfl := readFails_cases hs
  exact (h.stop c d).congr rfl rfl rfl rfl

theorem timeout (h : Inv L s) (hs : timeout L s d = some s') : Inv L s' := by
  obtain ⟨-, rfl⟩ := timeout_cases hs
  exact (h.stop .agent d).congr rfl rfl rfl rfl

theorem cancel (h : Inv L s) (hs : cancel s d = some s') : Inv L s' := by
  obtain ⟨-, rfl⟩ := cancel_cases hs
  exact h.stop .bridge d

theorem close (h : Inv L s) (hs : close s c = some s') : Inv L s' := by
  obtain ⟨-, rfl⟩ := close_cases hs
  obtain ⟨hchain, hcount, hspent, htally, hwithin, hshut⟩ := h
  constructor
  · intro c' d'
    rw [State.shut_sent, State.shut_source]
    exact hchain c' d'
  · intro c' d' hw
    simp only [State.shut_loops] at hw ⊢
    split at hw
    · simp [Phase.whole] at hw
    · next hne =>
      rw [if_neg hne]
      exact hcount c' d' hw
  · intro c' d' hp
    simp only [State.shut_loops] at hp
    split at hp
    · simp at hp
    · exact hspent c' d' hp
  · simp only [State.shut_sent]
    exact htally
  · exact hwithin
  · intro c' d' hclosed
    simp only [State.hasStopped, State.shut_loops]
    split
    · rfl
    · next hne =>
      simp only [State.shut, Function.update_of_ne hne] at hclosed
      exact hshut c' d' hclosed

theorem arrive (h : Inv L s) (d : Direction) (bytes : Bytes) :
    Inv L { s with
      arrivals := Function.update s.arrivals d (s.arrivals d ++ bytes)
      lastActive := s.now } := by
  obtain ⟨hchain, hcount, hspent, htally, hwithin, hshut⟩ := h
  refine ⟨fun c' d' => (hchain c' d').trans ?_, hcount, hspent, htally, hwithin, hshut⟩
  simp only [State.source]
  split
  · by_cases hd : d' = d
    · subst hd
      simp
    · simp [hd]
  · exact List.prefix_rfl

theorem step {e : Event} (h : Inv L s) (hs : step L s e = some s') : Inv L s' := by
  cases e with
  | arrive d bytes =>
    simp only [Relay.step, Option.ite_none_right_eq_some, Option.some.injEq] at hs
    obtain ⟨-, rfl⟩ := hs
    exact h.arrive d bytes
  | finish d =>
    simp only [Relay.step, Option.ite_none_right_eq_some, Option.some.injEq] at hs
    obtain ⟨-, rfl⟩ := hs
    exact h.congr rfl rfl rfl rfl
  | elapse dt =>
    simp only [Relay.step, Option.ite_none_right_eq_some, Option.some.injEq] at hs
    obtain ⟨-, rfl⟩ := hs
    exact h.congr rfl rfl rfl rfl
  | chunk c d n => exact h.chunk hs
  | drained c d => exact h.drained hs
  | fails c d => exact h.fails hs
  | eof c d => exact h.eof hs
  | readFails c d => exact h.readFails hs
  | timeout d => exact h.timeout hs
  | cancel d => exact h.cancel hs
  | close c => exact h.close hs

end Inv

/-! ## A faithful state -/

/-- Nothing is left behind without an excuse. -/
def Kept (L : Limits) (s : State) : Prop := ∀ d, Left s d → Excused L s d

/-- The first loop that has not written all that arrived takes the next step. -/
theorem moves (h : Inv L s) (hd : s.delivered d ≠ s.arrivals d) (hleft : ¬ Left s d) :
    Moves L s d := by
  have hrun : ∀ c, (s.loops c d).sent ≠ s.arrivals d → (s.loops c d).sent ≠ s.source c d →
      (drained L s c d).isSome = true ∨ (chunk L s c d 1).isSome = true := by
    intro c harr hsource
    cases hphase : (s.loops c d).phase with
    | stopped => exact absurd ⟨c, hphase, harr⟩ hleft
    | draining whole =>
      refine .inl ?_
      simp only [drained, hphase]
      split <;> rfl
    | reading =>
      refine .inr ?_
      have hw : (s.loops c d).phase.whole = true := by rw [hphase]; rfl
      have hlt : (s.loops c d).taken < (s.source c d).length := by
        rw [h.counted c d hw]
        refine lt_of_le_of_ne (h.chained c d).length_le fun hlen => hsource ?_
        exact (h.chained c d).eq_of_length hlen
      have hone : 1 ≤ bufferBytes := by decide
      simp only [chunk]
      rw [if_pos ⟨hphase, Nat.one_pos, hone, hlt⟩]
      rfl
  by_cases hfirst : (s.loops d.first d).sent = s.arrivals d
  · refine ⟨d.last, hrun d.last hd ?_⟩
    rw [s.source_last, hfirst]
    exact hd
  · refine ⟨d.first, hrun d.first hfirst ?_⟩
    rwa [s.source_first]

theorem faithful_iff (h : Inv L s) : Faithful L s ↔ Kept L s := by
  constructor
  · intro hf d hleft
    have hd : s.delivered d ≠ s.arrivals d := by
      obtain ⟨c, -, hsent⟩ := hleft
      exact fun hd => hsent (h.sent_of_delivered hd c)
    exact (hf.undelivered d hd).resolve_right fun hon => hon.1 hleft
  · intro hk
    refine ⟨fun d => h.sent_prefix d.last d, h.tally ▸ h.within, fun d hd => ?_⟩
    by_cases hleft : Left s d
    · exact .inl (hk d hleft)
    · exact .inr ⟨hleft, moves h hd hleft⟩

/-! ## What a step leaves behind -/

/-- Of a loop that moves on, only its own end can leave something behind. -/
theorem kept_setLoop (hk : Kept L s) (c : Component) (d : Direction) {loop : Loop}
    (harr : s'.arrivals = s.arrivals) (hloops : s'.loops = (s.setLoop c d loop).loops)
    (mono : ∀ d, Excused L s d → Excused L s' d)
    (hown : loop.phase = .stopped → loop.sent ≠ s.arrivals d → Excused L s' d) :
    Kept L s' := by
  rintro d' ⟨c', hover, hsent⟩
  rw [State.hasStopped, hloops, State.setLoop_loops] at hover
  rw [hloops, State.setLoop_loops, harr] at hsent
  split at hover
  · next hsame =>
    rw [if_pos hsame] at hsent
    obtain ⟨-, rfl⟩ := hsame
    exact hown hover hsent
  · next hne =>
    rw [if_neg hne] at hsent
    exact mono d' (hk d' ⟨c', hover, hsent⟩)

theorem kept_stop_iff (hk : Kept L s) (c : Component) (d : Direction)
    (harr : s'.arrivals = s.arrivals) (hloops : s'.loops = (s.stop c d).loops)
    (mono : ∀ d, Excused L s d → Excused L s' d) :
    Kept L s' ↔ ((s.loops c d).sent ≠ s.arrivals d → Excused L s' d) := by
  constructor
  · intro hk' hsent
    apply hk'
    refine ⟨c, ?_, ?_⟩
    · rw [State.hasStopped, hloops, State.stop, State.setLoop_self]
    · rw [hloops, State.stop, State.setLoop_self, harr]
      exact hsent
  · intro hown
    exact kept_setLoop hk c d harr hloops mono fun _ => hown

theorem kept_chunk {n : ℕ} (hk : Kept L s) (hs : chunk L s c d n = some s') :
    Kept L s' := by
  obtain ⟨-, hpos, -, rfl⟩ := chunk_cases hs
  refine kept_setLoop hk c d rfl rfl (fun d => ?_) fun hover _ => ?_
  · refine Or.imp_left fun hspent => hspent.trans ?_
    cases c with
    | bridge => exact le_rfl
    | agent => exact Nat.le_add_right _ _
  · have hcut : allowance L s c n ≠ n := by
      intro hall
      rw [hall, if_neg hpos.ne'] at hover
      cases hover
    exact .inl (allowance_cut hcut).2

theorem kept_drained (h : Inv L s) (hk : Kept L s) (hs : drained L s c d = some s') :
    Kept L s' := by
  obtain ⟨whole, hphase, ⟨-, rfl⟩ | ⟨-, hspent, rfl⟩⟩ := drained_cases hs
  · refine kept_setLoop hk c d rfl rfl (fun _ => id) fun hover _ => ?_
    cases hover
  · refine kept_setLoop hk c d rfl rfl (fun _ => id) fun _ _ => .inl ?_
    obtain rfl | hmax := hspent
    · exact (h.spent c d hphase).2
    · exact hmax

/-- A peer that has closed has left behind what this loop did not deliver. -/
theorem kept_fails (h : Inv L s) (hk : Kept L s) (hs : fails s c d = some s') :
    Kept L s' := by
  obtain ⟨-, -, rfl⟩ := fails_cases hs
  refine kept_setLoop hk c d rfl rfl (fun d' => ?_) fun _ hsent => ?_
  · refine Or.imp_right (Or.imp_left fun hfailed => ?_)
    by_cases hd : d' = d
    · subst hd
      simp [hfailed]
    · simpa [hd] using hfailed
  · by_cases hclosed : c = d.last ∨ s.closed d.last = false
    · refine .inr (.inl ?_)
      simpa [or_assoc] using Or.inr hclosed
    · rw [not_or, Bool.not_eq_false] at hclosed
      have hleft : Left s d := by
        refine ⟨d.last, h.shut d.last d hclosed.2, fun hlast => hsent ?_⟩
        exact h.sent_of_delivered hlast c
      obtain hmax | hfailed | hidle := hk d hleft
      · exact .inl hmax
      · exact .inr (.inl (by simp [hfailed]))
      · exact .inr (.inr hidle)

theorem kept_eof (h : Inv L s) (hk : Kept L s) (hs : eof s c d = some s') : Kept L s' := by
  obtain ⟨hread, htaken, hended, rfl⟩ := eof_cases hs
  refine kept_setLoop hk c d rfl rfl (fun _ => id) fun _ hsent => ?_
  have hw : (s.loops c d).phase.whole = true := by rw [hread]; rfl
  have hall : (s.loops c d).sent = s.source c d := by
    rw [h.sent_eq_take hw, htaken, List.take_length]
  change (s.loops c d).sent ≠ s.arrivals d at hsent
  obtain rfl | rfl := Direction.eq_first_or_last c d
  · rw [s.source_first] at hall
    exact absurd hall hsent
  · -- The first loop has closed: what it did not write, it has left behind.
    rw [hall, s.source_last] at hsent
    have hclosed : s.closed d.first = true := by simpa [State.sourceEnded] using hended
    exact hk d ⟨d.first, h.shut d.first d hclosed, hsent⟩

theorem kept_timeout_iff (hk : Kept L s) (hs : timeout L s d = some s') :
    Kept L s' ↔ Careful L s (.timeout d) := by
  obtain ⟨-, rfl⟩ := timeout_cases hs
  have hmono : ∀ d', Excused L s d' → Excused L { s.stop .agent d with
      idled := s.idled || decide (L.idleTimeout ≤ s.now - s.lastActive) } d' := by
    refine fun d' => Or.imp_right (Or.imp_right fun hidle => ?_)
    simp [hidle]
  refine Iff.trans (kept_stop_iff hk .agent d rfl rfl hmono) ?_
  simp only [Careful, Excused, Bool.or_eq_true, decide_eq_true_eq]
  constructor
  · intro hown
    by_cases hsent : (s.loops .agent d).sent = s.arrivals d
    · exact .inr (.inr hsent)
    · obtain hmax | hfailed | hidled | hidle := hown hsent
      · exact .inr (.inl (.inl hmax))
      · exact .inr (.inl (.inr (.inl hfailed)))
      · exact .inr (.inl (.inr (.inr hidled)))
      · exact .inl hidle
  · rintro (hidle | hexc | hsent) hne
    · exact .inr (.inr (.inr hidle))
    · exact hexc.imp_right (Or.imp_right Or.inl)
    · exact absurd hsent hne

/-- A loop that is ended without further ado leaves nothing behind, or is excused. -/
theorem kept_stopped_iff (hk : Kept L s) (c : Component) (d : Direction)
    (harr : s'.arrivals = s.arrivals) (hloops : s'.loops = (s.stop c d).loops)
    (hexcused : ∀ d, Excused L s' d ↔ Excused L s d) :
    Kept L s' ↔ Excused L s d ∨ (s.loops c d).sent = s.arrivals d := by
  refine Iff.trans (kept_stop_iff hk c d harr hloops fun d => (hexcused d).mpr) ?_
  rw [hexcused d]
  constructor
  · intro hown
    by_cases hsent : (s.loops c d).sent = s.arrivals d
    · exact .inr hsent
    · exact .inl (hown hsent)
  · rintro (hexc | hsent) hne
    · exact hexc
    · exact absurd hsent hne

theorem kept_cancel_iff (hk : Kept L s) (hs : cancel s d = some s') :
    Kept L s' ↔ Careful L s (.cancel d) := by
  obtain ⟨-, rfl⟩ := cancel_cases hs
  exact kept_stopped_iff hk .bridge d rfl rfl fun _ => Iff.rfl

theorem kept_readFails_iff (hk : Kept L s) (hs : readFails s c d = some s') :
    Kept L s' ↔ Careful L s (.readFails c d) := by
  obtain rfl := readFails_cases hs
  exact kept_stopped_iff hk c d rfl rfl fun _ => Iff.rfl

theorem kept_close_iff (hk : Kept L s) (hs : close s c = some s') :
    Kept L s' ↔ Careful L s (.close c) := by
  obtain ⟨hover, rfl⟩ := close_cases hs
  have hshut : Kept L (s.shut c) ↔
      ∀ d, s.hasStopped c d ∨ Excused L s d ∨ (s.loops c d).sent = s.arrivals d := by
    constructor
    · intro hk' d
      by_cases hsent : (s.loops c d).sent = s.arrivals d
      · exact .inr (.inr hsent)
      · refine .inr (.inl (hk' d ⟨c, ?_, ?_⟩))
        · simp [State.hasStopped, State.shut_loops]
        · rw [State.shut_sent]
          exact hsent
    · rintro hown d ⟨c', hc', hsent⟩
      rw [State.shut_sent] at hsent
      have hleft (hc : s.hasStopped c' d) : Excused L s d := hk d ⟨c', hc, hsent⟩
      rw [State.hasStopped, State.shut_loops] at hc'
      split at hc'
      · next hsame =>
        subst hsame
        obtain hc | hexc | heq := hown d
        · exact hleft hc
        · exact hexc
        · exact absurd heq hsent
      · exact hleft hc'
  rw [hshut]
  cases c with
  | agent => exact Iff.rfl
  | bridge =>
    refine iff_of_true (fun d => .inl ?_) trivial
    exact hover.elim (fun hall => hall d) fun hraised => by cases hraised.1

theorem kept_arrive_iff (h : Inv L s) (hk : Kept L s) {bytes : Bytes} (hne : bytes ≠ []) :
    Kept L { s with
        arrivals := Function.update s.arrivals d (s.arrivals d ++ bytes)
        lastActive := s.now } ↔
      Careful L s (.arrive d bytes) := by
  constructor
  · intro hk'
    by_cases hover : ∃ c, s.hasStopped c d
    · obtain ⟨c, hc⟩ := hover
      refine .inl (hk' d ⟨c, hc, fun hsent => ?_⟩)
      have hlen := (h.sent_prefix c d).length_le
      have hlast : (s.loops c d).sent = s.arrivals d ++ bytes := by simpa using hsent
      rw [hlast, List.length_append] at hlen
      have := List.length_pos_iff.mpr hne
      omega
    · exact .inr fun c hc => hover ⟨c, hc⟩
  · rintro hcare d' ⟨c, hover, hsent⟩
    by_cases hd : d' = d
    · subst hd
      exact hcare.resolve_right fun hopen => hopen c hover
    · refine hk d' ⟨c, hover, ?_⟩
      simpa [Function.update_of_ne hd] using hsent

/-- A step from a faithful state leads to one exactly when it meets the condition. -/
theorem kept_step_iff {e : Event} (h : Inv L s) (hk : Kept L s) (hs : step L s e = some s') :
    Kept L s' ↔ Careful L s e := by
  cases e with
  | arrive d bytes =>
    simp only [Relay.step, Option.ite_none_right_eq_some, Option.some.injEq] at hs
    obtain ⟨⟨-, hne⟩, rfl⟩ := hs
    exact kept_arrive_iff h hk hne
  | finish d =>
    simp only [Relay.step, Option.ite_none_right_eq_some, Option.some.injEq] at hs
    obtain ⟨-, rfl⟩ := hs
    exact iff_of_true hk trivial
  | elapse dt =>
    simp only [Relay.step, Option.ite_none_right_eq_some, Option.some.injEq] at hs
    obtain ⟨-, rfl⟩ := hs
    exact iff_of_true hk trivial
  | chunk c d n => exact iff_of_true (kept_chunk hk hs) trivial
  | drained c d => exact iff_of_true (kept_drained h hk hs) trivial
  | fails c d => exact iff_of_true (kept_fails h hk hs) trivial
  | eof c d => exact iff_of_true (kept_eof h hk hs) trivial
  | readFails c d => exact kept_readFails_iff hk hs
  | timeout d => exact kept_timeout_iff hk hs
  | cancel d => exact kept_cancel_iff hk hs
  | close c => exact kept_close_iff hk hs

/-! ## Runs -/

theorem throughout_iff (h : Inv L s) (hf : Faithful L s) (es : List Event) :
    Throughout L (Faithful L) s es ↔ CarefulRun L s es := by
  induction es generalizing s with
  | nil => exact iff_of_true hf trivial
  | cons e es ih =>
    refine (and_iff_right hf).trans (forall₂_congr fun s' hs => ?_)
    have h' := h.step hs
    have hstep : Faithful L s' ↔ Careful L s e := by
      rw [faithful_iff h']
      exact kept_step_iff h ((faithful_iff h).mp hf) hs
    constructor
    · intro hall
      have hf' : Faithful L s' := by
        cases es with
        | nil => exact hall
        | cons _ _ => exact hall.1
      exact ⟨hstep.mp hf', (ih h' hf').mp hall⟩
    · rintro ⟨hcare, hrest⟩
      have hf' := hstep.mpr hcare
      exact (ih h' hf').mpr hrest

/-- The state a run ends in. -/
theorem end_of_throughout {P : State → Prop} {es : List Event} (h : Throughout L P s es)
    (hrun : es.foldlM (step L) s = some s') : P s' := by
  induction es generalizing s with
  | nil =>
    obtain rfl : s = s' := Option.some.inj hrun
    exact h
  | cons e es ih =>
    rw [List.foldlM_cons, Option.bind_eq_bind, Option.bind_eq_some_iff] at hrun
    obtain ⟨t, ht, hrest⟩ := hrun
    exact ih (h.2 t ht) hrest

/-- The last loop of the direction has ended without an excuse before it delivered all. -/
def StopsShort (L : Limits) (d : Direction) (s : State) : Prop :=
  s.hasStopped d.last d ∧ s.delivered d ≠ s.arrivals d ∧ ¬ Excused L s d

instance (L : Limits) (d : Direction) (s : State) : Decidable (StopsShort L d s) :=
  inferInstanceAs (Decidable (_ ∧ _ ∧ ¬ (_ ∨ _ ∨ _)))

theorem not_throughout {es : List Event}
    (hrun : (es.foldlM (step L) s).any (fun t => decide (StopsShort L d t)) = true) :
    ¬ Throughout L (Faithful L) s es := by
  intro h
  obtain ⟨t, ht, hshort⟩ := (Option.any_eq_true _ _).mp hrun
  obtain ⟨hover, hd, hexc⟩ := of_decide_eq_true hshort
  obtain he | ⟨hleft, -⟩ := (end_of_throughout h ht).undelivered d hd
  · exact hexc he
  · exact hleft ⟨d.last, hover, hd⟩

/-- In every run of a tunnel, every state is faithful exactly when every step is careful. -/
theorem relays_faithfully_iff (L : Limits) (es : List Event) :
    Throughout L (Faithful L) start es ↔ CarefulRun L start es := by
  apply throughout_iff Inv.start
  rw [faithful_iff Inv.start]
  rintro d ⟨c, hover, -⟩
  cases hover

/-- `DEFAULT_TUNNEL_BYTES` and `DEFAULT_IDLE_TIMEOUT_S`. -/
def defaultLimits : Limits where
  maxTunnelBytes := 100 * 1024 * 1024
  idleTimeout := 60
  bytes_pos := by decide
  idle_pos := by decide

/-- The client sends its request and ends its stream; the reply comes after that. -/
def halfClose : List Event :=
  [.arrive .up [1], .chunk .bridge .up 1, .drained .bridge .up, .chunk .agent .up 1,
    .drained .agent .up, .finish .up, .eof .bridge .up, .cancel .down, .arrive .down [2]]

theorem halfClose_loses_reply :
    ¬ Throughout defaultLimits (Faithful defaultLimits) start halfClose := by
  apply not_throughout (d := .down)
  decide

/-- The destination sends for longer than the idle timeout, and the client speaks next. -/
def quietClient : List Event :=
  [.elapse 40, .arrive .down [1], .chunk .agent .down 1, .drained .agent .down,
    .chunk .bridge .down 1, .drained .bridge .down, .elapse 40, .timeout .up, .arrive .up [2]]

theorem quietClient_loses_request :
    ¬ Throughout defaultLimits (Faithful defaultLimits) start quietClient := by
  apply not_throughout (d := .up)
  decide +kernel

/-- The destination answers and resets its connection before the answer has been read. -/
def resetAnswer : List Event :=
  [.arrive .down [1], .readFails .agent .down, .close .agent, .eof .bridge .down]

theorem resetAnswer_loses_answer :
    ¬ Throughout defaultLimits (Faithful defaultLimits) start resetAnswer := by
  apply not_throughout (d := .down)
  decide

end CrawlTrove.Egress.Relay
