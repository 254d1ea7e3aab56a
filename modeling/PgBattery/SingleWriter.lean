import PgBattery.HoldDown
import PgBattery.LeaseBound

/-! One failover from both sides: the leader that is deposed, whose lease a quorum's acknowledgements
renew, the node elected after it, which waits out the hold-down, and the voters between them. -/
namespace PgBattery
namespace SingleWriter
open StateMachine Lease TransitionSystem Quorum

/-- The node `old` leads `term`, and `new` is elected later. -/
structure Cluster where
  voters : Finset NodeId
  old : NodeId
  new : NodeId
  term : ℕ
  two_voters : 1 < voters.card
  new_ne_old : new ≠ old

/-- `acked` is when a voter last acknowledged `old` in its term, `votes` who has voted for `new`. -/
structure System where
  deposed : LeaseBound.Node
  successor : HoldDown.Node
  acked : NodeId → Option ℕ
  votes : Finset (ℕ × NodeId)

inductive Event
  | elapse (d : ℕ)
  | ack (voter : NodeId)
  | vote (term : ℕ) (voter : NodeId)
  | deposed (e : LeaseBound.Event)
  | successor (e : HoldDown.Event)
  | restartOld (term : ℕ)
  | restartNew (m : MetricsView)

section Step
variable (c : Cluster) (s : System)

def ackedSince (k : ℕ) : Finset NodeId := c.voters.filter fun v => ∃ k' ∈ s.acked v, k ≤ k'

def votersFor (term : ℕ) : Finset NodeId := c.voters.filter fun v => (term,v) ∈ s.votes

/-- What Raft reports to a leader of its standing. -/
def reports : LeaseBound.Event → Bool
  | .elapse _ => false
  | .ack k => Majority c.voters (ackedSince c s k)
  | .publish leader _ voterCount _ => leader = some c.old → voterCount = c.voters.card
  | .process | .watchdog => true

def elects : HoldDown.Event → Bool
  | .elapse _ => false
  | .lead term leader => leader = c.new → c.term < term → Majority c.voters (votersFor c s term)
  | _ => true

def step : Event → Option System
  | .elapse d => some {s with
      deposed := {s.deposed with now := s.deposed.now+d}
      successor := {s.successor with now := s.successor.now+d}}
  | .ack v =>
    -- a voter that is in a later term answers the old leader no more
    if ∀ w ∈ s.votes, w.2 = v → w.1 ≤ c.term then
      some {s with acked := Function.update s.acked v (some s.deposed.now)}
    else none
  | .vote term v =>
    -- its own leader lease, which a candidacy does not outlast, keeps a voter that has heard of the
    -- old leader since the candidate came to the term from voting
    if ∀ k ∈ s.acked v, ∀ first ∈ s.successor.observed term, k ≤ first then
      some {s with votes := insert (term,v) s.votes}
    else none
  | .deposed e =>
    if reports c s e then (LeaseBound.step c.old s.deposed e).map ({s with deposed := ·}) else none
  | .successor e =>
    if elects c s e then (HoldDown.step c.new s.successor e).map ({s with successor := ·}) else none
  | .restartOld term =>
    some {s with deposed := LeaseBound.boot s.deposed.now defaultLeaseDuration term}
  | .restartNew m =>
    if m.currentLeader.all fun leader => (m.currentTerm,leader) ∈ s.successor.led then
      some {s with successor := HoldDown.boot s.successor.now m s.successor.led}
    else none

/-- The conditions under which the lease and the hold-down each keep what they promise. -/
def Orderly : Event → Prop
  | .deposed e => LeaseBound.Timely c.old 0 s.deposed e
  | .successor e => HoldDown.Settled c.new s.successor e
  | _ => True

instance instDecidableOrderly (e : Event) : Decidable (Orderly c s e) := by
  cases e <;> unfold Orderly <;> infer_instance

end Step

def boot (now term : ℕ) (m : MetricsView) (led : Finset (ℕ × NodeId)) : System :=
  ⟨LeaseBound.boot now defaultLeaseDuration term,HoldDown.boot now m led,fun _ => none,∅⟩

structure Inv (c : Cluster) (s : System) : Prop where
  lease : LeaseBound.Inv c.old 0 s.deposed
  duration : s.deposed.lease.duration = defaultLeaseDuration
  hold : HoldDown.Inv c.new s.successor
  clock : s.successor.now = s.deposed.now
  old_led : (c.term,c.old) ∈ s.successor.led
  leads : ∀ t, s.successor.pass = .begun t ∨ s.successor.pass = .primary t →
    (t,c.new) ∈ s.successor.led
  acked_le : ∀ v k, s.acked v = some k → k ≤ s.deposed.now
  quorum : ∀ k, s.deposed.ackedAt = some k → Majority c.voters (ackedSince c s k)
  voted : ∀ t v k first, c.term < t → (t,v) ∈ s.votes → s.acked v = some k →
    s.successor.observed t = some first → k ≤ first
  elected : ∀ t, c.term < t → (t,c.new) ∈ s.successor.led → Majority c.voters (votersFor c s t)

/-- A majority is in a later term, and last acknowledged the old leader a whole lease ago. -/
def Retired (c : Cluster) (s : System) : Prop :=
  ∃ t q, c.term < t ∧ Majority c.voters q ∧ ∀ v ∈ q, (t,v) ∈ s.votes ∧
    ∀ k, s.acked v = some k → k+defaultLeaseDuration ≤ s.deposed.now

/-- What an event other than the passing of time does to the successor. -/
structure Moves (id : NodeId) (n : HoldDown.Node) (e : HoldDown.Event) (n' : HoldDown.Node) : Prop where
  now : n'.now = n.now
  led_mono : n.led ⊆ n'.led
  led : ∀ t p, (t,p) ∈ n'.led → (t,p) ∈ n.led ∨ e = .lead t p
  observed : ∀ t first, n'.observed t = some first → n.observed t = some first ∨ first = n.now
  pass : ∀ t, n'.pass = .begun t ∨ n'.pass = .primary t →
    (n.pass = .begun t ∨ n.pass = .primary t) ∨
      t = n.metrics.currentTerm ∧ n.metrics.currentLeader = some id

theorem moves_step {id : NodeId} {n n' : HoldDown.Node} {e : HoldDown.Event}
    (he : ∀ d, e ≠ .elapse d) (hs : HoldDown.step id n e = some n') : Moves id n e n' := by
  have hse : ∀ t, (n.see t).now = n.now ∧ (n.see t).led = n.led ∧ (n.see t).pass = n.pass := by
    intro t
    rw [HoldDown.see_eq]
    exact ⟨rfl,rfl,rfl⟩
  have ho : ∀ t first, (n.see n.metrics.currentTerm).observed t = some first →
      n.observed t = some first ∨ first = n.now :=
    fun t first h => (HoldDown.observed_see_cases h).imp_right fun h => h.2.2
  revert hs
  fun_cases HoldDown.step id n e <;> intro hs <;>
    first | cases hs | obtain rfl := Option.some.inj hs
  all_goals refine ⟨?_,?_,?_,?_,?_⟩ <;> simp_all +zetaDelta [HoldDown.processMetricsUpdate]
  · rintro t p (⟨rfl,rfl⟩ | h)
    · exact .inr ⟨rfl,rfl⟩
    · exact .inl h

variable {c : Cluster} {s s' : System} {e : Event}

theorem deposed_step {e : LeaseBound.Event} {n : LeaseBound.Node} (hr : reports c s e)
    (hs : LeaseBound.step c.old s.deposed e = some n) : n.now = s.deposed.now ∧
      n.lease.duration = s.deposed.lease.duration ∧ ∀ k, n.ackedAt = some k →
        s.deposed.ackedAt = some k ∨ Majority c.voters (ackedSince c s k) := by
  revert hs
  fun_cases LeaseBound.step c.old s.deposed e <;> intro hs <;> try cases hs
  · cases hr
  all_goals refine ⟨rfl,?_,?_⟩ <;> simp_all +zetaDelta [reports,LeaseBound.ackedBy,updateLeaseState,
    LeaseState.updateFromRaft,LeaseState.renew,LeaseState.expire]
  · -- of two voters none is a quorum of its own
    have := c.two_voters
    grind
  · split_ifs <;> rfl

theorem voters_step (hs : step c s e = some s') : s.deposed.now ≤ s'.deposed.now ∧
    s.votes ⊆ s'.votes ∧ ∀ t v, c.term < t → (t,v) ∈ s.votes → s'.acked v = s.acked v := by
  revert hs
  fun_cases step c s e <;> intro hs <;> try cases hs
  · simp
  · next v hg =>
    refine ⟨le_rfl,subset_rfl,fun t w ht hw => Function.update_of_ne ?_ _ _⟩
    rintro rfl
    exact absurd (hg _ hw rfl) (not_le.2 ht)
  · simp
  · next hr =>
    obtain ⟨n,hn,rfl⟩ := Option.map_eq_some_iff.1 hs
    simp [(deposed_step hr hn).1]
  · obtain ⟨n,hn,rfl⟩ := Option.map_eq_some_iff.1 hs
    simp
  · simp [LeaseBound.boot]
  · simp

theorem inv_step (h : Inv c s) (hg : Orderly c s e) (hs : step c s e = some s') : Inv c s' := by
  obtain ⟨-,hv,ha⟩ := voters_step hs
  revert hs
  fun_cases step c s e <;> intro hs <;> try cases hs
  · next d =>
    exact {h with
      lease := LeaseBound.inv_elapse h.lease d
      hold := HoldDown.inv_elapse h.hold d
      clock := congrArg (·+d) h.clock
      acked_le := fun v k hk => (h.acked_le v k hk).trans (Nat.le_add_right _ _)}
  · next v hg =>
    refine {h with acked_le := ?_, quorum := ?_, voted := ?_}
    · intro w k hw
      have hle := h.acked_le w k
      grind [Function.update_apply]
    · intro k hq
      refine (h.quorum k hq).mono fun w hw => ?_
      have hle := h.lease.acked_le k hq
      simp only [ackedSince,Finset.mem_inter,Finset.mem_filter,Option.mem_def] at hw ⊢
      grind [Function.update_apply]
    · exact fun t w k first ht hw hk => h.voted t w k first ht hw ((ha t w ht hw).symm.trans hk)
  · next t v hb =>
    refine {h with voted := ?_, elected := ?_}
    · intro t' w k first ht hw hm hf
      rcases Finset.mem_insert.1 hw with heq | hw
      · cases heq
        exact hb k hm first hf
      · exact h.voted t' w k first ht hw hm hf
    · refine fun t ht hl => (h.elected t ht hl).mono (Finset.inter_subset_right.trans ?_)
      exact Finset.monotone_filter_right _ fun _ _ hm => hv hm
  · next hr =>
    obtain ⟨n,hn,rfl⟩ := Option.map_eq_some_iff.1 hs
    obtain ⟨hno,hd,ha⟩ := deposed_step hr hn
    exact {h with
      lease := LeaseBound.inv_step h.lease hg hn
      duration := hd.trans h.duration
      clock := h.clock.trans hno.symm
      acked_le := fun v k hk => (h.acked_le v k hk).trans hno.ge
      quorum := fun k hk => (ha k hk).elim (h.quorum k) id}
  · next e he =>
    obtain ⟨n,hn,rfl⟩ := Option.map_eq_some_iff.1 hs
    have hm : Moves c.new s.successor e n := by
      refine moves_step ?_ hn
      rintro d rfl
      cases he
    refine {h with
      hold := HoldDown.inv_step h.hold hn
      clock := hm.now.trans h.clock
      old_led := hm.led_mono h.old_led
      leads := fun t hp => hm.led_mono ?_
      voted := fun t v k first ht hv hk hf => ?_
      elected := fun t ht hl => ?_}
    · rcases hm.pass t hp with hp | ⟨rfl,hl⟩
      · exact h.leads t hp
      · exact h.hold.published.2 _ hl
    · rcases hm.observed t first hf with hf | rfl
      · exact h.voted t v k first ht hv hk hf
      · exact (h.acked_le v k hk).trans h.clock.ge
    · rcases hm.led t _ hl with hl | rfl
      · exact h.elected t ht hl
      · exact of_decide_eq_true he rfl ht
  · exact {h with
      lease := LeaseBound.inv_boot ..
      duration := rfl
      quorum := fun _ hk => by cases hk}
  · next m hm =>
    refine {h with
      hold := HoldDown.inv_boot fun leader hl => by simpa [hl] using hm
      leads := fun t hp => by rcases hp with hp | hp <;> cases hp
      voted := fun t v k first ht hv hk hf => ?_}
    obtain ⟨-,hf⟩ := Option.ite_none_right_eq_some.1 hf
    exact ((h.acked_le v k hk).trans h.clock.ge).trans (Option.some.inj hf).le

theorem retired_step (h : Retired c s) (hs : step c s e = some s') : Retired c s' := by
  obtain ⟨hn,hv,ha⟩ := voters_step hs
  obtain ⟨t,q,ht,hq,hr⟩ := h
  refine ⟨t,q,ht,hq,fun v hm => ⟨hv (hr v hm).1,fun k hk => ?_⟩⟩
  rw [ha t v ht (hr v hm).1] at hk
  exact ((hr v hm).2 k hk).trans hn

/-- Any two majorities meet, so the last quorum of a retired leader is a whole lease ago. -/
theorem Inv.lease_over (h : Inv c s) (hr : Retired c s) :
    s.deposed.lease.isValid s.deposed.now = false := by
  simp only [LeaseState.isValid,Bool.and_eq_false_imp,decide_eq_false_iff_not,not_lt]
  intro hl
  rcases h.lease.bounded hl with he | ⟨k,ha,he⟩
  · exact he
  obtain ⟨t,q,-,hq,hr⟩ := hr
  obtain ⟨v,-,hm,hv⟩ := (h.quorum k ha).exists_common hq
  obtain ⟨k',hk',hle⟩ := (Finset.mem_filter.1 hm).2
  have hle' := (hr v hv).2 k' hk'
  rw [h.duration] at he
  omega

/-- Whoever promotes or opens in a later term has waited a lease since it saw the term, and was elected
by voters that had done with the old leader then. -/
theorem Inv.retired (h : Inv c s) {e : HoldDown.Event} (he : HoldDown.Settled c.new s.successor e)
    {t : ℕ} (ha : HoldDown.acts s.successor e = some t) (ht : c.term < t) : Retired c s := by
  obtain ⟨first,hf,hle⟩ := HoldDown.held_of_settled h.hold he t ha
    ⟨_,h.old_led,ht,c.new_ne_old.symm⟩
  have hl : (t,c.new) ∈ s.successor.led := by
    rcases HoldDown.acts_cases ha with ⟨_,_,hp,_⟩ | ⟨_,_,_,_,hp,_⟩
    · exact h.leads t (.inl hp)
    · exact h.leads t (.inr hp)
  refine ⟨t,_,ht,h.elected t ht hl,fun v hv => ?_⟩
  have hv := (Finset.mem_filter.1 hv).2
  refine ⟨hv,fun k hk => ?_⟩
  have hk := h.voted t v k first ht hv hk hf
  rw [h.clock] at hle
  omega

/-- When the new leader promotes its PostgreSQL or opens its writes, the lease of the leader it
follows is over and never becomes valid again, whatever the two nodes and the voters do, restarts
included. -/
theorem deposed_lease_over (c : Cluster) (now term : ℕ) (m : MetricsView) (led : Finset (ℕ × NodeId))
    (hled : ∀ leader, m.currentLeader = some leader → (m.currentTerm,leader) ∈ led)
    (hold : (c.term,c.old) ∈ led) (hnew : ∀ t, (t,c.new) ∈ led → t ≤ c.term)
    (before after : List Event) (e : HoldDown.Event)
    (horderly : Guarded (step c) (Orderly c) (boot now term m led) (before++.successor e::after))
    (s : System) (hbefore : run (step c) (boot now term m led) before = some s)
    (t : ℕ) (hacts : HoldDown.acts s.successor e = some t) (hlater : c.term < t) :
    s.deposed.lease.isValid s.deposed.now = false ∧
      ∀ s', run (step c) s (.successor e::after) = some s' →
        s'.deposed.lease.isValid s'.deposed.now = false := by
  have hb : Inv c (boot now term m led) := by
    refine ⟨LeaseBound.inv_boot ..,rfl,HoldDown.inv_boot hled,rfl,hold,?_,?_,?_,?_,
      fun t ht hl => absurd (hnew t hl) (not_le.2 ht)⟩
    all_goals simp [boot,LeaseBound.boot,HoldDown.boot]
  obtain ⟨hg,hg'⟩ := (guarded_append ..).1 horderly
  have hi : Inv c s := run_invariant_guarded (fun _ _ _ => inv_step) hb hg hbefore
  have hr := hi.retired (hg' s hbefore).1 hacts hlater
  refine ⟨hi.lease_over hr,fun s' hs => ?_⟩
  have hi' : Inv c s' := run_invariant_guarded (fun _ _ _ => inv_step) hi (hg' s hbefore) hs
  exact hi'.lease_over (run_invariant (fun _ _ _ => retired_step) hr hs)

/-- Node 2 leads the first term of three voters, renews its lease and falls silent, and node 1 wins
the second term. -/
def sample : Cluster := ⟨{1,2,3},2,1,1,by decide,by decide⟩

def started : System := boot 0 1 ⟨some 2,1,none,3⟩ {(1,2)}

def takeover : List Event :=
  [.ack 2,.ack 3,.deposed (.ack 0),.deposed (.publish (some 2) 1 3 true),
    .deposed .process,.elapse 1,.vote 2 1,.vote 2 3,.successor (.lead 2 1),
    .successor (.publish ⟨some 1,2,some 0,3⟩),.successor .process,.elapse defaultLeaseDuration,
    .successor .beginPass]

theorem deposed_lease_over_takeover :
    (run (step sample) started (takeover.take 11)).any
        (fun s => s.deposed.lease.isValid s.deposed.now) ∧
      ∃ s, run (step sample) started takeover = some s ∧
        HoldDown.acts s.successor (.promote (some false) true true) = some 2 ∧
        s.deposed.lease.isValid s.deposed.now = false := by
  have hg : Guarded (step sample) (Orderly sample) started
      (takeover++[.successor (.promote (some false) true true)]) := by decide +kernel
  have ha : (run (step sample) started takeover).any fun s =>
      HoldDown.acts s.successor (.promote (some false) true true) = some 2 := by decide +kernel
  obtain ⟨s,hs,ha⟩ := (Option.any_eq_true _ _).1 ha
  have ha := of_decide_eq_true ha
  refine ⟨by decide +kernel,s,hs,ha,?_⟩
  refine (deposed_lease_over sample 0 1 _ _ ?_ ?_ ?_ _ _ _ hg s hs 2 ha (by decide)).1
  · simp
  · simp [sample]
  · simp [sample]

end SingleWriter
end PgBattery
