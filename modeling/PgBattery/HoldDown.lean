import PgBattery.Lease
import PgBattery.Replication
import PgBattery.TransitionSystem

/-! The failover hold-down: the anchor that the metrics loop stamps and clears, and the reconcile
passes that promote and open writes past it. -/
namespace PgBattery
namespace HoldDown
open StateMachine Lease Replication TransitionSystem

def promotionLeaseHolddown (failoverStartedAt : Option ℕ) (now lease : ℕ) : Option ℕ :=
  failoverStartedAt.bind fun started => if now-started < lease then some (now-started) else none

def shouldAnchorTermAdvance (prevTerm currentTerm : ℕ) (leaderId : Option NodeId)
    (isLeader : Bool) : Bool :=
  if leaderId.isSome && !isLeader then false else 0 < prevTerm && prevTerm < currentTerm

def shouldClearStaleFailoverAnchor (leaderId : Option NodeId) (isLeader : Bool) : Bool :=
  leaderId.isSome && !isLeader

/-- Where a reconcile pass stands; the term is the one its view read. -/
inductive Pass
  | idle
  | begun (term : ℕ)
  | primary (term : ℕ)
  | opening (seen : Option ℕ)
  | spending (seen : Option ℕ)

structure Probe where
  inRecovery : Bool
  settledOpen : Bool
  syncListEmpty : Bool
  syncStandbys : ℕ

/-- One process of the node since it booted. `led` is who has led which term anywhere in the
cluster, `shown` which of them the metrics named, `observed` when this process first saw a term. -/
structure Node where
  now : ℕ
  metrics : MetricsView
  unseen : Bool
  prevLeaderId : Option NodeId
  prevTerm : ℕ
  leaderLostAt : Option ℕ
  lease : LeaseState
  pass : Pass
  led : Finset (ℕ × NodeId)
  shown : Finset (ℕ × NodeId)
  observed : ℕ → Option ℕ
  bootTerm : ℕ

inductive Event
  | elapse (d : ℕ)
  | lead (term : ℕ) (leader : NodeId)
  | publish (m : MetricsView)
  | process
  | expire
  | beginPass
  | promote (observedPrimary : Option Bool) (safe promoted : Bool)
  | openWrites (probe : Option Probe) (required : ℕ) (committedAsync : Bool)
  | opened (ok : Bool)
  | spend
  | endPass

def Node.see (s : Node) (term : ℕ) : Node :=
  if s.observed term = none then {s with observed := Function.update s.observed term (some s.now)}
  else s

section Process
variable (nodeId : NodeId) (s : Node) (m : MetricsView)

def anchorOnLoss : Option ℕ :=
  if s.prevLeaderId.isSome ∧ m.currentLeader = none ∧ s.leaderLostAt = none then some s.now
  else s.lease.failoverAnchor

def leaderLostAfter : Option ℕ :=
  if s.prevLeaderId.isSome ∧ m.currentLeader = none ∧ s.leaderLostAt = none then some s.now
  else if m.currentLeader.isSome then none
  else s.leaderLostAt

def anchorAfter : Option ℕ :=
  let isLeader : Bool := m.currentLeader = some nodeId
  let cleared := if shouldClearStaleFailoverAnchor m.currentLeader isLeader then none
    else anchorOnLoss s m
  if shouldAnchorTermAdvance s.prevTerm m.currentTerm m.currentLeader isLeader then some s.now
  else cleared

def processMetricsUpdate : Node :=
  {s.see m.currentTerm with
    lease := updateLeaseState {s.lease with failoverAnchor := anchorAfter nodeId s m} s.now nodeId m
    leaderLostAt := leaderLostAfter s m
    prevTerm := m.currentTerm
    prevLeaderId := m.currentLeader
    unseen := false}

end Process

/-- Whether the hold-down lets a promotion through now. -/
def mayPromote (s : Node) : Bool :=
  (promotionLeaseHolddown (some (s.lease.promotionAnchor s.now).1) s.now
    defaultLeaseDuration).isNone

/-- Whether writes that are closed may be opened now. -/
def mayOpen (s : Node) (probe : Probe) (required : ℕ) (committedAsync : Bool) : Bool :=
  writesMayOpen probe.syncListEmpty probe.syncStandbys required committedAsync &&
    s.lease.isValid s.now &&
    (promotionLeaseHolddown s.lease.failoverAnchor s.now defaultLeaseDuration).isNone

/-- The term in which an event promotes PostgreSQL or calls `set_readonly(false)`. -/
def acts (s : Node) : Event → Option ℕ
  | .promote (some false) true _ => match s.pass with
    | .begun term => if mayPromote s then some term else none
    | .idle | .primary _ | .opening _ | .spending _ => none
  | .openWrites (some probe) required committedAsync => match s.pass with
    | .primary term =>
      if !probe.inRecovery && !probe.settledOpen && mayOpen s probe required committedAsync then
        some term
      else none
    | .idle | .begun _ | .opening _ | .spending _ => none
  | .promote .. | .openWrites none _ _ | .elapse _ | .lead .. | .publish _ | .process | .expire
  | .beginPass | .opened _ | .spend | .endPass => none

/-- The leader that a publication names, with its term. -/
def named (m : MetricsView) : Finset (ℕ × NodeId) :=
  (m.currentLeader.map fun leader => (m.currentTerm,leader)).toFinset

def step (nodeId : NodeId) (s : Node) : Event → Option Node
  | .elapse d => some {s with now := s.now+d}
  | .lead term leader => some {s with led := insert (term,leader) s.led}
  | .publish m =>
    -- a node stands for terms above the one it has seen, so never for one it saw another lead
    if s.metrics.currentTerm ≤ m.currentTerm ∧
        (m.currentLeader.all fun leader => (m.currentTerm,leader) ∈ s.led) ∧
        (m.currentLeader = some nodeId → ∀ w ∈ s.shown, w.1 = m.currentTerm → w.2 = nodeId) then
      some {s with metrics := m, unseen := true, shown := s.shown ∪ named m}
    else none
  | .process => if s.unseen then some (processMetricsUpdate nodeId s s.metrics) else none
  | .expire => some {s with lease := s.lease.expire s.now}
  | .beginPass => match s.pass with
    | .idle =>
      let seen := s.see s.metrics.currentTerm
      if s.metrics.currentLeader = some nodeId then
        some {seen with pass := .begun s.metrics.currentTerm}
      else some seen
    | .begun _ | .primary _ | .opening _ | .spending _ => none
  | .promote observedPrimary safe promoted => match s.pass with
    | .begun term => match observedPrimary with
      | some true => some {s with pass := .primary term}
      | none => some {s with pass := .idle}
      | some false =>
        if safe then
          let lease := (s.lease.promotionAnchor s.now).2
          if mayPromote s && promoted then some {s with lease := lease, pass := .primary term}
          else some {s with lease := lease, pass := .idle}
        else some {s with pass := .idle}
    | .idle | .primary _ | .opening _ | .spending _ => none
  | .openWrites probe required committedAsync => match s.pass with
    | .primary _ => match probe with
      | none => some {s with pass := .idle}
      | some probe =>
        if probe.inRecovery then some {s with pass := .idle}
        else
          let held := promotionLeaseHolddown s.lease.failoverAnchor s.now defaultLeaseDuration
          if probe.settledOpen then
            if held.isNone then some {s with pass := .spending s.lease.failoverAnchor}
            else some {s with pass := .idle}
          else if mayOpen s probe required committedAsync then
            some {s with pass := .opening s.lease.failoverAnchor}
          else some {s with pass := .idle}
    | .idle | .begun _ | .opening _ | .spending _ => none
  | .opened ok => match s.pass with
    | .opening seen => if ok then some {s with pass := .spending seen} else some {s with pass := .idle}
    | .idle | .begun _ | .primary _ | .spending _ => none
  | .spend => match s.pass with
    | .spending seen => some {s with lease := s.lease.spendFailoverAnchor seen, pass := .idle}
    | .idle | .begun _ | .primary _ | .opening _ => none
  | .endPass => some {s with pass := .idle}

/-- A node whose governor subscribes to the metrics in some term, led by anyone or no one. -/
def boot (now : ℕ) (m : MetricsView) (led : Finset (ℕ × NodeId)) : Node where
  now := now
  metrics := m
  unseen := false
  prevLeaderId := none
  prevTerm := m.currentTerm
  leaderLostAt := none
  lease := .withDuration now defaultLeaseDuration
  pass := .idle
  led := led
  shown := named m
  observed t := if t = m.currentTerm then some now else none
  bootTerm := m.currentTerm

/-- Some other node has led a term before this one. -/
def OtherLed (nodeId : NodeId) (s : Node) (term : ℕ) : Prop :=
  ∃ w ∈ s.led, w.1 < term ∧ w.2 ≠ nodeId

instance (nodeId : NodeId) (s : Node) (term : ℕ) : Decidable (OtherLed nodeId s term) :=
  inferInstanceAs (Decidable (∃ _ ∈ s.led, _))

/-- A promotion or an opening in a term that follows another node's comes a whole lease after the
term was first seen. -/
def Held (nodeId : NodeId) (s : Node) (e : Event) : Prop :=
  ∀ term ∈ acts s e, OtherLed nodeId s term →
    ∃ first ∈ s.observed term, first+defaultLeaseDuration ≤ s.now

instance (nodeId : NodeId) (s : Node) (e : Event) : Decidable (Held nodeId s e) :=
  inferInstanceAs (Decidable (∀ term ∈ acts s e, OtherLed nodeId s term → ∃ _ ∈ _, _))

def Event.opens : Event → Bool
  | .openWrites .. => true
  | .elapse _ | .lead .. | .publish _ | .process | .expire | .beginPass | .promote .. | .opened _
  | .spend | .endPass => false

/-- The process booted in a real term, the metrics loop has processed the term the pass acts in,
and a primary that needs no promotion is opened only in a term the process saw begin. -/
def Settled (nodeId : NodeId) (s : Node) (e : Event) : Prop :=
  ∀ term ∈ acts s e, OtherLed nodeId s term →
    0 < s.bootTerm ∧ term ≤ s.prevTerm ∧ (e.opens → s.bootTerm < s.prevTerm)

instance (nodeId : NodeId) (s : Node) (e : Event) : Decidable (Settled nodeId s e) :=
  inferInstanceAs (Decidable (∀ term ∈ acts s e, _))

structure Inv (nodeId : NodeId) (s : Node) : Prop where
  own : s.metrics.currentLeader = some nodeId →
    ∀ w ∈ s.shown, w.1 = s.metrics.currentTerm → w.2 = nodeId
  showing : named s.metrics ⊆ s.shown
  published : s.prevTerm ≤ s.metrics.currentTerm ∧
    ∀ leader, s.metrics.currentLeader = some leader → (s.metrics.currentTerm,leader) ∈ s.led
  previous : ∀ leader, s.prevLeaderId = some leader → (s.prevTerm,leader) ∈ s.shown
  tracking : s.prevLeaderId.isSome → s.leaderLostAt = none
  leading : s.lease.isLeader → s.prevLeaderId = some nodeId
  boot_le : s.bootTerm ≤ s.prevTerm
  seen_le : ∀ t first, s.observed t = some first → first ≤ s.now ∧ t ≤ s.metrics.currentTerm
  seen_prev : ∃ first, s.observed s.prevTerm = some first
  seen_mono : ∀ t t' first first', t ≤ t' → s.observed t = some first →
    s.observed t' = some first' → first ≤ first'
  anchored : 0 < s.bootTerm → ∀ anchor, s.lease.failoverAnchor = some anchor →
    ∀ t first, t ≤ s.prevTerm → s.observed t = some first → first ≤ anchor
  unanchored : 0 < s.bootTerm → s.bootTerm < s.prevTerm → s.lease.failoverAnchor = none →
    (∀ leader, s.prevLeaderId = some leader → leader = nodeId) →
    ∀ first, s.observed s.prevTerm = some first → first+defaultLeaseDuration ≤ s.now
  spent : ∀ anchor, s.pass = .opening (some anchor) ∨ s.pass = .spending (some anchor) →
    anchor+defaultLeaseDuration ≤ s.now
  viewed : ∀ term, s.pass = .begun term ∨ s.pass = .primary term →
    ∃ first, s.observed term = some first

variable {now anchor : ℕ}

theorem mem_named {m : MetricsView} {w : ℕ × NodeId} :
    w ∈ named m ↔ m.currentLeader = some w.2 ∧ w.1 = m.currentTerm := by
  simp only [named,Option.mem_toFinset,Option.mem_def,Option.map_eq_some_iff]
  constructor
  · rintro ⟨leader,hl,rfl⟩
    exact ⟨hl,rfl⟩
  · rintro ⟨hl,ht⟩
    exact ⟨w.2,hl,by rw [← ht]⟩

theorem inv_boot {nodeId : NodeId} {m : MetricsView} {led : Finset (ℕ × NodeId)}
    (hl : ∀ leader, m.currentLeader = some leader → (m.currentTerm,leader) ∈ led) :
    Inv nodeId (boot now m led) where
  own ho w hw _ := Option.some.inj ((mem_named.1 hw).1.symm.trans ho)
  showing := subset_rfl
  published := ⟨le_rfl,hl⟩
  previous _ h := by cases h
  tracking h := by cases h
  leading h := by cases h
  boot_le := le_rfl
  seen_le t first h := by
    simp only [boot,Option.ite_none_right_eq_some,Option.some.injEq] at h
    exact ⟨h.2.ge,h.1.le⟩
  seen_prev := ⟨now,by simp [boot]⟩
  seen_mono t t' first first' _ h h' := by
    simp only [boot,Option.ite_none_right_eq_some,Option.some.injEq] at h h'
    omega
  anchored _ _ h := by cases h
  unanchored _ h := absurd h (lt_irrefl _)
  spent _ h := by rcases h with h | h <;> cases h
  viewed _ h := by rcases h with h | h <;> cases h

theorem add_le_of_holddown {lease : ℕ} (hp : 0 < lease)
    (h : (promotionLeaseHolddown (some anchor) now lease).isNone) : anchor+lease ≤ now := by
  simp only [promotionLeaseHolddown,Option.bind_some] at h
  split_ifs at h with hlt
  · cases h
  · omega

section Steps
variable {nodeId : NodeId} {s : Node}

theorem inv_elapse (h : Inv nodeId s) (d : ℕ) : Inv nodeId {s with now := s.now+d} where
  own := h.own
  showing := h.showing
  published := h.published
  previous := h.previous
  tracking := h.tracking
  leading := h.leading
  boot_le := h.boot_le
  seen_le t first ht := (h.seen_le t first ht).imp_left (·.trans (Nat.le_add_right _ _))
  seen_prev := h.seen_prev
  seen_mono := h.seen_mono
  anchored := h.anchored
  unanchored hb hlt ha hl first hf :=
    (h.unanchored hb hlt ha hl first hf).trans (Nat.le_add_right _ _)
  spent anchor hp := (h.spent anchor hp).trans (Nat.le_add_right _ _)
  viewed := h.viewed

variable {term t first : ℕ}

theorem inv_lead (h : Inv nodeId s) (leader : NodeId) :
    Inv nodeId {s with led := insert (term,leader) s.led} := by
  refine {h with published := ?_}
  exact h.published.imp_right fun hl p hp => Finset.mem_insert_of_mem (hl p hp)

theorem inv_publish (h : Inv nodeId s) {m : MetricsView}
    (hte : s.metrics.currentTerm ≤ m.currentTerm)
    (hl : ∀ leader, m.currentLeader = some leader → (m.currentTerm,leader) ∈ s.led)
    (ho : m.currentLeader = some nodeId → ∀ w ∈ s.shown, w.1 = m.currentTerm → w.2 = nodeId) :
    Inv nodeId {s with metrics := m, unseen := true, shown := s.shown ∪ named m} where
  own hn w hw ht := by
    rcases Finset.mem_union.1 hw with hw | hw
    · exact ho hn w hw ht
    · exact Option.some.inj ((mem_named.1 hw).1.symm.trans hn)
  showing := Finset.subset_union_right
  published := ⟨h.published.1.trans hte,hl⟩
  previous leader hp := Finset.mem_union_left _ (h.previous leader hp)
  tracking := h.tracking
  leading := h.leading
  boot_le := h.boot_le
  seen_le t first ht := (h.seen_le t first ht).imp_right (·.trans hte)
  seen_prev := h.seen_prev
  seen_mono := h.seen_mono
  anchored := h.anchored
  unanchored := h.unanchored
  spent := h.spent
  viewed := h.viewed

theorem observed_see (h : s.observed t = some first) : (s.see term).observed t = some first := by
  rw [Node.see]
  split_ifs with hn
  · have hne : t ≠ term := by
      rintro rfl
      rw [h] at hn
      cases hn
    simpa only [Function.update_of_ne hne] using h
  · exact h

theorem observed_see_cases (h : (s.see term).observed t = some first) :
    s.observed t = some first ∨ (s.observed t = none ∧ t = term ∧ first = s.now) := by
  rw [Node.see] at h
  split_ifs at h with hn
  · by_cases ht : t = term
    · subst ht
      simp only [Function.update_self,Option.some.injEq] at h
      exact .inr ⟨hn,rfl,h.symm⟩
    · simp only [Function.update_of_ne ht] at h
      exact .inl h
  · exact .inl h

theorem exists_observed_see (s : Node) (term : ℕ) :
    ∃ first, (s.see term).observed term = some first := by
  cases h : s.observed term with
  | none => exact ⟨s.now,by simp [Node.see,h]⟩
  | some first => exact ⟨first,observed_see h⟩

theorem see_eq (s : Node) (term : ℕ) : s.see term = {s with observed := (s.see term).observed} := by
  rw [Node.see]
  split_ifs <;> rfl

theorem inv_see (h : Inv nodeId s) : Inv nodeId (s.see s.metrics.currentTerm) := by
  -- a term seen now is the published one, which no earlier pass or publication has seen
  have hne : ∀ t first, (s.see s.metrics.currentTerm).observed t = some first → t ≤ s.prevTerm →
      s.observed t = some first := by
    intro t first ht hle
    rcases observed_see_cases ht with hold | ⟨hn,rfl,_⟩
    · exact hold
    · obtain ⟨f,hf⟩ := h.seen_prev
      rw [le_antisymm hle h.published.1,hf] at hn
      cases hn
  rw [see_eq]
  refine {h with
    seen_le := ?_, seen_prev := ?_, seen_mono := ?_, anchored := ?_, unanchored := ?_, viewed := ?_}
  · intro t first ht
    rcases observed_see_cases ht with hold | ⟨_,rfl,rfl⟩
    · exact h.seen_le t first hold
    · exact ⟨le_rfl,le_rfl⟩
  · obtain ⟨first,hfi⟩ := h.seen_prev
    exact ⟨first,observed_see hfi⟩
  · intro t t' first first' htt ht ht'
    rcases observed_see_cases ht' with ho' | ⟨_,rfl,rfl⟩
    · rcases observed_see_cases ht with hold | ⟨hn,rfl,rfl⟩
      · exact h.seen_mono t t' first first' htt hold ho'
      · have heq := le_antisymm htt (h.seen_le t' first' ho').2
        rw [heq,ho'] at hn
        cases hn
    · rcases observed_see_cases ht with hold | ⟨_,_,rfl⟩
      · exact (h.seen_le t first hold).1
      · exact le_rfl
  · exact fun hb anchor ha t first hle ht => h.anchored hb anchor ha t first hle (hne t first ht hle)
  · exact fun hb hlt ha hl first ht => h.unanchored hb hlt ha hl first (hne _ first ht le_rfl)
  · intro term hp
    obtain ⟨first,hfi⟩ := h.viewed term hp
    exact ⟨first,observed_see hfi⟩

theorem anchorAfter_eq {m : MetricsView} (hp : 0 < s.prevTerm)
    (ho : (m.currentLeader.isSome && !decide (m.currentLeader = some nodeId)) = false) :
    anchorAfter nodeId s m =
      if s.prevTerm < m.currentTerm then some s.now else anchorOnLoss s m := by
  simp only [anchorAfter,shouldAnchorTermAdvance,shouldClearStaleFailoverAnchor,ho,hp,
    Bool.false_eq_true,if_false,decide_true,Bool.true_and,decide_eq_true_eq]

theorem anchorAfter_eq_some {m : MetricsView} (hp : 0 < s.prevTerm)
    (h : anchorAfter nodeId s m = some anchor) :
    anchor = s.now ∨ (m.currentTerm ≤ s.prevTerm ∧ s.lease.failoverAnchor = some anchor) := by
  cases ho : m.currentLeader.isSome && !decide (m.currentLeader = some nodeId) with
  | true => simp [anchorAfter,shouldAnchorTermAdvance,shouldClearStaleFailoverAnchor,ho] at h
  | false =>
    rw [anchorAfter_eq hp ho,anchorOnLoss] at h
    split_ifs at h with ha hl
    · exact .inl (Option.some.inj h).symm
    · exact .inl (Option.some.inj h).symm
    · exact .inr ⟨not_lt.1 ha,h⟩

/-- A publication that leaves no anchor and no other leader brings no new term, found no anchor, and
is not the one in which a leader disappears. -/
theorem anchorAfter_eq_none {m : MetricsView} (hp : 0 < s.prevTerm)
    (hs : ∀ leader, m.currentLeader = some leader → leader = nodeId)
    (h : anchorAfter nodeId s m = none) :
    m.currentTerm ≤ s.prevTerm ∧ s.lease.failoverAnchor = none ∧
      ¬(s.prevLeaderId.isSome ∧ m.currentLeader = none ∧ s.leaderLostAt = none) := by
  have ho : (m.currentLeader.isSome && !decide (m.currentLeader = some nodeId)) = false := by
    cases hl : m.currentLeader with
    | none => rfl
    | some leader => simp [hs leader hl]
  rw [anchorAfter_eq hp ho,anchorOnLoss] at h
  split_ifs at h with ha hlo
  exact ⟨not_lt.1 ha,h,hlo⟩

theorem Inv.prevLeader_eq (h : Inv nodeId s) (ht : s.metrics.currentTerm = s.prevTerm)
    (hse : ∀ leader, s.metrics.currentLeader = some leader → leader = nodeId)
    (hk : ¬(s.prevLeaderId.isSome ∧ s.metrics.currentLeader = none ∧ s.leaderLostAt = none))
    {leader : NodeId} (hl : s.prevLeaderId = some leader) : leader = nodeId := by
  have hs : s.prevLeaderId.isSome := by rw [hl]; rfl
  cases hc : s.metrics.currentLeader with
  | none => exact absurd ⟨hs,hc,h.tracking hs⟩ hk
  | some p => exact h.own (hse p hc ▸ hc) _ (h.previous leader hl) ht.symm

theorem inv_process (h : Inv nodeId s) : Inv nodeId (processMetricsUpdate nodeId s s.metrics) := by
  have hs := inv_see h
  rw [see_eq] at hs
  rw [processMetricsUpdate,see_eq]
  refine {hs with
    published := ⟨le_rfl,h.published.2⟩,
    previous := fun leader hl => h.showing (mem_named.2 ⟨hl,rfl⟩), tracking := ?_, leading := ?_,
    boot_le := h.boot_le.trans h.published.1, seen_prev := exists_observed_see s _,
    anchored := ?_, unanchored := ?_}
  · intro hso
    have hne : s.metrics.currentLeader ≠ none := Option.isSome_iff_ne_none.1 hso
    simp only [leaderLostAfter,hne,false_and,and_false,if_false]
    exact if_pos hso
  · intro hl
    simpa only [updateLeaseState,LeaseState.updateFromRaft_isLeader,decide_eq_true_eq] using hl
  · intro hb anchor ha t first hle ht
    rw [updateLeaseState,LeaseState.updateFromRaft_failoverAnchor] at ha
    rcases anchorAfter_eq_some (hb.trans_le h.boot_le) ha with rfl | ⟨hte,han⟩
    · exact (hs.seen_le t first ht).1
    · exact hs.anchored hb anchor han t first (hle.trans hte) ht
  · intro hb hlt ha hse first ht
    rw [updateLeaseState,LeaseState.updateFromRaft_failoverAnchor] at ha
    obtain ⟨hle,han,hk⟩ := anchorAfter_eq_none (hb.trans_le h.boot_le) hse ha
    have hte := le_antisymm hle h.published.1
    exact hs.unanchored hb (hlt.trans_eq hte) han
      (fun _ => h.prevLeader_eq hte hse hk) first ((congrArg _ hte.symm).trans ht)

theorem inv_idle (h : Inv nodeId s) : Inv nodeId {s with pass := .idle} :=
  {h with
    spent := fun _ hp => by rcases hp with hp | hp <;> cases hp
    viewed := fun _ hp => by rcases hp with hp | hp <;> cases hp}

theorem inv_viewing (h : Inv nodeId s) {pass : Pass}
    (hpa : pass = .begun term ∨ pass = .primary term) (hte : ∃ first, s.observed term = some first)
    : Inv nodeId {s with pass := pass} := by
  rcases hpa with rfl | rfl
  all_goals
    refine {h with spent := ?_, viewed := ?_}
    · rintro anchor (hp | hp) <;> cases hp
    · intro t hp
      have ht : term = t := by simpa using hp
      exact ht ▸ hte

theorem inv_spending (h : Inv nodeId s) {pass : Pass} {seen : Option ℕ}
    (hpa : pass = .opening seen ∨ pass = .spending seen)
    (ho : ∀ anchor, seen = some anchor → anchor+defaultLeaseDuration ≤ s.now) :
    Inv nodeId {s with pass := pass} := by
  rcases hpa with rfl | rfl
  all_goals
    refine {h with spent := ?_, viewed := ?_}
    · intro anchor hp
      exact ho anchor (by simpa using hp)
    · rintro t (hp | hp) <;> cases hp

theorem inv_promotionAnchor (h : Inv nodeId s) :
    Inv nodeId {s with lease := (s.lease.promotionAnchor s.now).2} := by
  cases ha : s.lease.failoverAnchor with
  | some anchor =>
    simp only [LeaseState.promotionAnchor,ha]
    exact h
  | none =>
    simp only [LeaseState.promotionAnchor,ha]
    refine {h with anchored := ?_, unanchored := ?_}
    · intro _ anchor han t first _ ht
      cases han
      exact (h.seen_le t first ht).1
    · intro _ _ hn
      cases hn

/-- Spending an anchor whose hold-down is over leaves every term seen a whole lease ago. -/
theorem inv_spend (h : Inv nodeId s) {seen : Option ℕ} (hp : s.pass = .spending seen) :
    Inv nodeId {s with lease := s.lease.spendFailoverAnchor seen} := by
  rw [LeaseState.spendFailoverAnchor]
  split_ifs with hsa
  · refine {h with anchored := ?_, unanchored := ?_}
    · intro _ anchor ha
      cases ha
    · intro hb hlt _ hse first ht
      cases hs : seen with
      | none => exact h.unanchored hb hlt (hsa.trans hs) hse first ht
      | some anchor =>
        have ho := h.spent anchor (.inr (hp.trans (by rw [hs])))
        have hle := h.anchored hb anchor (hsa.trans hs) s.prevTerm first le_rfl ht
        exact (Nat.add_le_add_right hle _).trans ho
  · exact h

theorem over_of_holddown (h : (promotionLeaseHolddown s.lease.failoverAnchor s.now
    defaultLeaseDuration).isNone) :
    ∀ anchor, s.lease.failoverAnchor = some anchor → anchor+defaultLeaseDuration ≤ s.now := by
  intro anchor ha
  rw [ha] at h
  exact add_le_of_holddown (by decide) h

theorem inv_step (h : Inv nodeId s) {e : Event} {s' : Node} (hs : step nodeId s e = some s') :
    Inv nodeId s' := by
  revert hs
  fun_cases step nodeId s e <;> intro hs <;> first | cases hs | obtain rfl := Option.some.inj hs
  · exact inv_elapse h _
  · exact inv_lead h _
  · next ht =>
    refine inv_publish h ht.1 (fun leader hl => ?_) ht.2.2
    simpa only [hl,Option.all_some,decide_eq_true_eq] using ht.2.1
  · exact inv_process h
  · exact {h with}
  · exact inv_viewing (inv_see h) (.inl rfl) (exists_observed_see s _)
  · exact inv_see h
  · next hp => exact inv_viewing h (.inr rfl) (h.viewed _ (.inl hp))
  · exact inv_idle h
  · next hp _ _ => exact inv_viewing (inv_promotionAnchor h) (.inr rfl) (h.viewed _ (.inl hp))
  · exact inv_idle (inv_promotionAnchor h)
  · exact inv_idle h
  · exact inv_idle h
  · exact inv_idle h
  · next hh => exact inv_spending h (.inr rfl) (over_of_holddown hh)
  · exact inv_idle h
  · next ho =>
    rw [mayOpen,Bool.and_eq_true] at ho
    exact inv_spending h (.inl rfl) (over_of_holddown ho.2)
  · exact inv_idle h
  · next hp =>
    refine inv_spending h (.inr rfl) fun anchor ha => h.spent anchor (.inl ?_)
    rw [hp,ha]
  · exact inv_idle h
  · next hp => exact inv_idle (inv_spend h hp)
  · exact inv_idle h

theorem acts_cases {e : Event} (h : acts s e = some term) :
    (∃ promoted, e = .promote (some false) true promoted ∧ s.pass = .begun term ∧ mayPromote s) ∨
      ∃ probe required committedAsync, e = .openWrites (some probe) required committedAsync ∧
        s.pass = .primary term ∧ mayOpen s probe required committedAsync := by
  revert h
  fun_cases acts s e <;> intro h <;> cases h
  · next hm hp => exact .inl ⟨_,rfl,hp,hm⟩
  · next hm hp => exact .inr ⟨_,_,_,rfl,hp,(Bool.and_eq_true_iff.1 hm).2⟩

/-- An anchor past its hold-down puts every term seen by then a whole lease ago. -/
theorem Inv.held_of_anchor (h : Inv nodeId s) (hb : 0 < s.bootTerm)
    (ha : s.lease.failoverAnchor = some anchor) (hle : term ≤ s.prevTerm)
    (hf : s.observed term = some first) (ho : anchor+defaultLeaseDuration ≤ s.now) :
    first+defaultLeaseDuration ≤ s.now :=
  (Nat.add_le_add_right (h.anchored hb anchor ha term first hle hf) _).trans ho

theorem anchor_of_mayPromote (h : mayPromote s) : ∃ anchor, s.lease.failoverAnchor = some anchor ∧
    anchor+defaultLeaseDuration ≤ s.now := by
  cases ha : s.lease.failoverAnchor with
  | some anchor =>
    simp only [mayPromote,LeaseState.promotionAnchor,ha] at h
    exact ⟨anchor,rfl,add_le_of_holddown (by decide) h⟩
  | none =>
    simp only [mayPromote,LeaseState.promotionAnchor,ha] at h
    have ho := add_le_of_holddown (by decide) h
    have hp : 0 < defaultLeaseDuration := by decide
    omega

theorem held_of_settled (h : Inv nodeId s) {e : Event} (hse : Settled nodeId s e) :
    Held nodeId s e := by
  intro term hac hot
  obtain ⟨hb,hle,hop⟩ := hse term hac hot
  rcases acts_cases hac with ⟨_,rfl,hp,hm⟩ | ⟨probe,required,committedAsync,rfl,hp,hm⟩
  · obtain ⟨first,hf⟩ := h.viewed term (.inl hp)
    obtain ⟨anchor,han,ho⟩ := anchor_of_mayPromote hm
    exact ⟨first,hf,h.held_of_anchor hb han hle hf ho⟩
  · obtain ⟨first,hf⟩ := h.viewed term (.inr hp)
    refine ⟨first,hf,?_⟩
    simp only [mayOpen,LeaseState.isValid,Bool.and_eq_true] at hm
    obtain ⟨⟨_,hld,_⟩,hh⟩ := hm
    cases ha : s.lease.failoverAnchor with
    | some anchor =>
      exact h.held_of_anchor hb ha hle hf (over_of_holddown hh anchor ha)
    | none =>
      -- no anchor: it was spent, after this node's own term had been seen for a lease
      obtain ⟨last,hla⟩ := h.seen_prev
      have hs : ∀ leader, s.prevLeaderId = some leader → leader = nodeId := by
        intro leader hl
        exact (Option.some.inj ((h.leading hld).symm.trans hl)).symm
      have ho := h.unanchored hb (hop rfl) ha hs last hla
      exact (Nat.add_le_add_right (h.seen_mono _ _ _ _ hle hf hla) _).trans ho

end Steps

/-- Every promotion and every opening of a settled run waits out the hold-down. -/
theorem acts_after_holddown (nodeId : NodeId) (now : ℕ) (m : MetricsView) (led : Finset (ℕ × NodeId))
    (hled : ∀ leader, m.currentLeader = some leader → (m.currentTerm,leader) ∈ led)
    (es : List Event) (hsettled : Guarded (step nodeId) (Settled nodeId) (boot now m led) es) :
    Guarded (step nodeId) (Held nodeId) (boot now m led) es :=
  Guarded.imp (fun _ _ _ h _ hs => inv_step h hs) (fun _ _ h => held_of_settled h)
    (inv_boot hled) hsettled

def failover : List Event :=
  [.lead 2 1,.publish ⟨some 1,2,some 0,3⟩,.process,.elapse defaultLeaseDuration,
    .publish ⟨some 1,2,some 0,3⟩,.process,.beginPass,.promote (some false) true true,
    .openWrites (some ⟨false,false,false,1⟩) 1 false,.opened true,.spend]

theorem acts_after_holddown_failover :
    Guarded (step 1) (Settled 1) (boot 0 ⟨some 2,1,none,3⟩ {(1,2)}) failover ∧
      (run (step 1) (boot 0 ⟨some 2,1,none,3⟩ {(1,2)}) (failover.take 8)).any (fun s =>
        (acts s (.openWrites (some ⟨false,false,false,1⟩) 1 false)).isSome) ∧
      Guarded (step 1) (Held 1) (boot 0 ⟨some 2,1,none,3⟩ {(1,2)}) failover := by
  have hs : Guarded (step 1) (Settled 1) (boot 0 ⟨some 2,1,none,3⟩ {(1,2)}) failover := by
    decide +kernel
  refine ⟨hs,by decide +kernel,acts_after_holddown 1 0 _ _ (fun leader hl => ?_) failover hs⟩
  simpa using hl.symm

/-- Each time node 1 opens in a term after node 2's, no time after it first saw that term: restarted
over a primary as the term's leader; started in no term at all; and, with the anchor of an older
loss, promoting in a pass that read the term before the metrics loop did. -/
theorem acts_before_holddown :
    ¬Guarded (step 1) (Held 1) (boot 0 ⟨some 1,2,some 0,3⟩ {(1,2),(2,1)})
        [.publish ⟨some 1,2,some 0,3⟩,.process,.beginPass,.promote (some true) true true,
          .openWrites (some ⟨false,false,false,1⟩) 1 false] ∧
      ¬Guarded (step 1) (Held 1) (boot 0 ⟨none,0,none,3⟩ {(1,2),(2,1)})
        [.publish ⟨some 1,2,some 0,3⟩,.process,.beginPass,.promote (some true) true true,
          .openWrites (some ⟨false,false,false,1⟩) 1 false] ∧
      ¬Guarded (step 1) (Held 1) (boot 0 ⟨some 2,1,none,3⟩ {(1,2),(2,1)})
        [.publish ⟨some 2,1,none,3⟩,.process,.publish ⟨none,1,none,3⟩,.process,
          .elapse defaultLeaseDuration,.publish ⟨some 1,2,some 0,3⟩,.beginPass,
          .promote (some false) true true] := by
  decide +kernel

end HoldDown
end PgBattery
