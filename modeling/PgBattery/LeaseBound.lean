import PgBattery.Lease
import PgBattery.TransitionSystem

/-! How long a lease can outlive the last acknowledgement of a quorum, when the metrics it is
renewed from are processed some time after they were published. -/
namespace PgBattery
namespace LeaseBound
open StateMachine Lease TransitionSystem

/-- The latest publication, with when it was made and the acknowledgement its age is counted from. -/
structure Publication where
  view : MetricsView
  publishedAt : ℕ
  ackedAt : Option ℕ

/-- `ackedAt` is the instant a quorum last acknowledged this leader, `unseen` whether the latest
publication is still to be processed. -/
structure Node where
  now : ℕ
  ackedAt : Option ℕ
  metrics : Publication
  unseen : Bool
  lastMetricsUpdate : ℕ
  lease : LeaseState

inductive Event
  | elapse (d : ℕ)
  | ack (instant : ℕ)
  | publish (leader : Option NodeId) (term voterCount : ℕ) (known : Bool)
  | process
  | watchdog

/-- When a quorum has last acknowledged the leader a publication is made by: a sole voter is its own
quorum. -/
def ackedBy (nodeId : NodeId) (s : Node) (leader : Option NodeId) (voterCount : ℕ) : Option ℕ :=
  if leader = some nodeId ∧ voterCount = 1 then some s.now else s.ackedAt

def step (nodeId : NodeId) (s : Node) : Event → Option Node
  | .elapse d => some {s with now := s.now+d}
  | .ack instant =>
    if s.ackedAt.getD 0 ≤ instant ∧ instant ≤ s.now then some {s with ackedAt := some instant}
    else none
  | .publish leader term voterCount known =>
    let ackedAt := ackedBy nodeId s leader voterCount
    -- the age is published in whole milliseconds
    let millis := if known then ackedAt.map fun k => (s.now-k)/nanosPerMilli else none
    some {s with
      ackedAt := ackedAt
      metrics := ⟨⟨leader,term,millis,voterCount⟩,s.now,ackedAt⟩
      unseen := true}
  | .process =>
    if s.unseen then
      some {s with
        lease := updateLeaseState s.lease s.now nodeId s.metrics.view
        lastMetricsUpdate := s.now
        unseen := false}
    else none
  | .watchdog =>
    if s.now-s.lastMetricsUpdate ≤ metricsWatchdogTimeoutMs*nanosPerMilli then some s
    else if s.metrics.view.currentLeader = some nodeId then
      some {s with lease := s.lease.expire s.now, lastMetricsUpdate := s.now}
    else some {s with lastMetricsUpdate := s.now}

def boot (now duration term : ℕ) : Node :=
  ⟨now,none,⟨⟨none,term,none,0⟩,now,none⟩,false,now,.withDuration now duration⟩

/-- A publication that renews the lease is processed no later, up to the slack, than newer
acknowledgements have made up for: the delay and what its age lost below a millisecond. -/
def Timely (nodeId : NodeId) (slack : ℕ) (s : Node) : Event → Prop
  | .process => s.metrics.view.currentLeader = some nodeId → hasQuorum s.metrics.view true →
    ∀ k, s.metrics.ackedAt = some k →
      s.now-s.metrics.publishedAt+(s.metrics.publishedAt-k)%nanosPerMilli ≤
        s.ackedAt.getD 0-k+slack
  | .elapse _ | .ack _ | .publish .. | .watchdog => True

instance (nodeId : NodeId) (slack : ℕ) (s : Node) : ∀ e, Decidable (Timely nodeId slack s e)
  | .process => inferInstanceAs (Decidable (_ → _ → ∀ k ∈ s.metrics.ackedAt, _))
  | .elapse _ | .ack _ | .publish .. | .watchdog => isTrue trivial

/-- The lease ends no later than a lease and the slack after the last acknowledgement, or it has
ended. -/
structure Inv (nodeId : NodeId) (slack : ℕ) (s : Node) : Prop where
  bounded : s.lease.isLeader → s.lease.expiresAt ≤ s.now ∨
    ∃ k, s.ackedAt = some k ∧ s.lease.expiresAt ≤ k+slack+s.lease.duration
  acked_le : ∀ k, s.ackedAt = some k → k ≤ s.now
  published_le : s.metrics.publishedAt ≤ s.now
  age : ∀ ms, s.metrics.view.millisSinceQuorumAck = some ms → ∃ k, s.metrics.ackedAt = some k ∧
    ms = (s.metrics.publishedAt-k)/nanosPerMilli
  sole : s.metrics.view.currentLeader = some nodeId → s.metrics.view.voterCount = 1 →
    s.metrics.ackedAt = some s.metrics.publishedAt
  published_acked : ∀ k, s.metrics.ackedAt = some k → k ≤ s.metrics.publishedAt ∧
    ∃ k', s.ackedAt = some k' ∧ k ≤ k'

theorem inv_boot (nodeId : NodeId) (slack now duration term : ℕ) :
    Inv nodeId slack (boot now duration term) where
  bounded h := by cases h
  acked_le _ h := by cases h
  published_le := le_rfl
  age _ h := by cases h
  sole h := by cases h
  published_acked _ h := by cases h

theorem sub_age_le {now published k k' unit slack : ℕ} (hk : k ≤ published) (hp : published ≤ now)
    (hle : k ≤ k') (hd : now-published+(published-k)%unit ≤ k'-k+slack) :
    (published-k)/unit*unit ≤ now ∧ now-(published-k)/unit*unit ≤ k'+slack := by
  have hs := Nat.div_add_mod' (published-k) unit
  omega

section Inv
variable {nodeId : NodeId} {slack : ℕ} {s : Node}

theorem Inv.anchor_le (h : Inv nodeId slack s) (hl : s.metrics.view.currentLeader = some nodeId)
    (hq : hasQuorum s.metrics.view true) (ht : Timely nodeId slack s .process) :
    ∃ k, s.ackedAt = some k ∧
      (checkedSub s.now (quorumAckAge s.metrics.view true)).getD s.now ≤ k+slack := by
  have hp := h.published_le
  by_cases hs : s.metrics.view.voterCount = 1
  · -- a sole voter acknowledges itself when it publishes
    have ha := h.sole hl hs
    obtain ⟨_,k,hk,hle⟩ := h.published_acked _ ha
    have hd := ht hl hq _ ha
    simp only [hk,Option.getD_some,Nat.sub_self,Nat.zero_mod] at hd
    refine ⟨k,hk,?_⟩
    simp only [quorumAckAge,hs,checkedSub,Bool.not_true,Bool.false_eq_true,if_false,if_true,
      Nat.zero_le,Nat.sub_zero,Option.getD_some]
    omega
  · cases hms : s.metrics.view.millisSinceQuorumAck with
    | none => simp [hasQuorum,hasQuorumDecision,hs,hms] at hq
    | some ms =>
      obtain ⟨k,ha,hag⟩ := h.age ms hms
      obtain ⟨hkp,k',hk',hle⟩ := h.published_acked k ha
      have hd := ht hl hq k ha
      rw [hk',Option.getD_some] at hd
      obtain ⟨hsu,han⟩ := sub_age_le hkp hp hle hd
      refine ⟨k',hk',?_⟩
      rw [quorumAckAge,if_neg (by simp),if_neg hs,hms,Option.elim_some,hag,checkedSub,
        if_pos hsu,Option.getD_some]
      exact han

theorem inv_elapse (h : Inv nodeId slack s) (d : ℕ) : Inv nodeId slack {s with now := s.now+d} where
  bounded hl := (h.bounded hl).imp_left fun hle => hle.trans (Nat.le_add_right _ _)
  acked_le k hk := (h.acked_le k hk).trans (Nat.le_add_right _ _)
  published_le := h.published_le.trans (Nat.le_add_right _ _)
  age := h.age
  sole := h.sole
  published_acked := h.published_acked

theorem inv_acked (h : Inv nodeId slack s) {k' : ℕ} (hla : s.ackedAt.getD 0 ≤ k') (hle : k' ≤ s.now) :
    Inv nodeId slack {s with ackedAt := some k'} where
  bounded hl := by
    refine (h.bounded hl).imp_right ?_
    rintro ⟨k,hk,hb⟩
    simp only [hk,Option.getD_some] at hla
    exact ⟨k',rfl,hb.trans (Nat.add_le_add_right (Nat.add_le_add_right hla _) _)⟩
  acked_le k hk := by
    cases hk
    exact hle
  published_le := h.published_le
  age := h.age
  sole := h.sole
  published_acked k hk := by
    obtain ⟨hkp,k₀,hk₀,hkk⟩ := h.published_acked k hk
    simp only [hk₀,Option.getD_some] at hla
    exact ⟨hkp,k',rfl,hkk.trans hla⟩

theorem inv_publish (h : Inv nodeId slack s) {leader : Option NodeId} {term voterCount : ℕ} {known : Bool}
    (hs : leader = some nodeId → voterCount = 1 → s.ackedAt = some s.now) :
    Inv nodeId slack {s with
      metrics := ⟨⟨leader,term,
        if known then s.ackedAt.map fun k => (s.now-k)/nanosPerMilli else none,voterCount⟩,
        s.now,s.ackedAt⟩
      unseen := true} where
  bounded := h.bounded
  acked_le := h.acked_le
  published_le := le_rfl
  age ms hms := by
    simp only [Option.ite_none_right_eq_some,Option.map_eq_some_iff] at hms
    obtain ⟨_,k,hk,rfl⟩ := hms
    exact ⟨k,hk,rfl⟩
  sole := hs
  published_acked k hk := ⟨h.acked_le k hk,k,hk,le_rfl⟩

theorem inv_process (h : Inv nodeId slack s) (ht : Timely nodeId slack s .process) :
    Inv nodeId slack {s with
      lease := updateLeaseState s.lease s.now nodeId s.metrics.view
      lastMetricsUpdate := s.now
      unseen := false} := by
  refine {h with bounded := fun _ => ?_}
  simp only [updateLeaseState,LeaseState.updateFromRaft]
  split_ifs with hr
  · simp only [Bool.and_eq_true,decide_eq_true_eq] at hr
    obtain ⟨hl,hq⟩ := hr
    simp only [hl,decide_true] at hq ⊢
    obtain ⟨k,hk,hle⟩ := h.anchor_le hl hq ht
    exact .inr ⟨k,hk,Nat.add_le_add_right hle _⟩
  · exact .inl (LeaseState.expiresAt_expire_le _ _)

theorem inv_step {e : Event} {s' : Node} (h : Inv nodeId slack s) (hg : Timely nodeId slack s e)
    (hs : step nodeId s e = some s') : Inv nodeId slack s' := by
  cases e with
  | elapse d =>
    cases hs
    exact inv_elapse h d
  | ack k =>
    simp only [step,Option.ite_none_right_eq_some,Option.some.injEq] at hs
    obtain ⟨⟨hla,hle⟩,rfl⟩ := hs
    exact inv_acked h hla hle
  | publish leader term voterCount known =>
    cases hs
    by_cases hso : leader = some nodeId ∧ voterCount = 1
    · simp only [ackedBy,if_pos hso]
      have hle : s.ackedAt.getD 0 ≤ s.now := by
        cases hk : s.ackedAt with
        | none => exact Nat.zero_le _
        | some k => exact h.acked_le k hk
      exact inv_publish (inv_acked h hle le_rfl) fun _ _ => rfl
    · simp only [ackedBy,if_neg hso]
      exact inv_publish h fun hl hv => absurd ⟨hl,hv⟩ hso
  | process =>
    simp only [step,Option.ite_none_right_eq_some,Option.some.injEq] at hs
    obtain ⟨_,rfl⟩ := hs
    exact inv_process h hg
  | watchdog =>
    simp only [step] at hs
    split_ifs at hs
    · cases hs
      exact h
    · cases hs
      exact {h with bounded := fun _ => .inl (LeaseState.expiresAt_expire_le _ _)}
    · cases hs
      exact {h with}

end Inv

theorem lease_within_slack {nodeId : NodeId} {slack start duration term : ℕ} {es : List Event}
    {s : Node} (ht : Guarded (step nodeId) (Timely nodeId slack) (boot start duration term) es)
    (hr : run (step nodeId) (boot start duration term) es = some s) (hv : s.lease.isValid s.now) :
    ∃ k, s.ackedAt = some k ∧ s.now < k+slack+s.lease.duration := by
  have hi : Inv nodeId slack s :=
    run_invariant_guarded (fun _ _ _ => inv_step) (inv_boot nodeId slack start duration term) ht hr
  simp only [LeaseState.isValid,Bool.and_eq_true,decide_eq_true_eq] at hv
  rcases hi.bounded hv.1 with he | ⟨k,hk,hle⟩
  · omega
  · exact ⟨k,hk,hv.2.trans_le hle⟩

/-- In every state of a run whose publications are processed in time, a valid lease ends within its
duration of the last acknowledgement of a quorum. -/
theorem lease_within_duration_of_quorum_ack (nodeId : NodeId) (start duration term : ℕ)
    (es : List Event) (htimely : Guarded (step nodeId) (Timely nodeId 0) (boot start duration term) es)
    (s : Node) (hrun : run (step nodeId) (boot start duration term) es = some s)
    (hvalid : s.lease.isValid s.now) :
    ∃ k, s.ackedAt = some k ∧ s.now < k+s.lease.duration :=
  lease_within_slack htimely hrun hvalid

/-- What bounds the lease without any condition on the acknowledgements: the delay with which
publications are processed, and a millisecond. -/
theorem lease_within_delay_of_quorum_ack (nodeId : NodeId) (start duration term delay : ℕ)
    (es : List Event) (hdelay : Guarded (step nodeId)
      (fun s e => e = .process → s.now-s.metrics.publishedAt ≤ delay) (boot start duration term) es)
    (s : Node) (hrun : run (step nodeId) (boot start duration term) es = some s)
    (hvalid : s.lease.isValid s.now) :
    ∃ k, s.ackedAt = some k ∧ s.now < k+(delay+nanosPerMilli)+s.lease.duration := by
  have ht : Guarded (step nodeId) (Timely nodeId (delay+nanosPerMilli)) (boot start duration term) es := by
    refine @Guarded.imp _ _ _ _ _ (fun _ => True) (fun _ _ _ _ _ _ => trivial) (fun s e _ hd => ?_) _ _
      trivial hdelay
    cases e with
    | process =>
      intro _ _ k _
      have hm := Nat.mod_lt (s.metrics.publishedAt-k) (show 0 < nanosPerMilli by decide)
      have hde := hd rfl
      omega
    | _ => trivial
  exact lease_within_slack ht hrun hvalid

def prompt : List Event :=
  [.ack 0,.elapse 100000000,.publish (some 1) 1 3 true,.process,.elapse 1500000000]

theorem lease_within_duration_of_quorum_ack_prompt :
    Guarded (step 1) (Timely 1 0) (boot 0 defaultLeaseDuration 1) prompt ∧
      ∃ s, run (step 1) (boot 0 defaultLeaseDuration 1) prompt = some s ∧ s.lease.isValid s.now ∧
        ∃ k, s.ackedAt = some k ∧ s.now < k+s.lease.duration := by
  have ht : Guarded (step 1) (Timely 1 0) (boot 0 defaultLeaseDuration 1) prompt := by
    decide +kernel
  have hs : (run (step 1) (boot 0 defaultLeaseDuration 1) prompt).any
      fun s => s.lease.isValid s.now := by decide +kernel
  obtain ⟨s,hr,hv⟩ := (Option.any_eq_true _ _).1 hs
  exact ⟨ht,s,hr,hv,
    lease_within_duration_of_quorum_ack 1 0 defaultLeaseDuration 1 prompt ht s hr hv⟩

/-- A publication made 900 ms after its acknowledgement, processed half a second later. -/
def delayed : List Event :=
  [.ack 0,.elapse 900000000,.publish (some 1) 1 3 true,.elapse 500000000,.process,.elapse 1000000000]

theorem lease_outlives_quorum_ack :
    ∃ s ∈ run (step 1) (boot 0 defaultLeaseDuration 1) delayed, s.lease.isValid s.now ∧
      s.ackedAt = some 0 ∧ 0+s.lease.duration < s.now := by
  decide +kernel

end LeaseBound
end PgBattery
