import PgBattery.StateMachine

/-! The leader lease and the metrics the governor renews it from. Instants and durations are in
nanoseconds. -/
namespace PgBattery
namespace Lease
open StateMachine

def nanosPerMilli : ℕ := 1000000
def defaultLeaseDuration : ℕ := 2000*nanosPerMilli
def quorumTimeoutMs : ℕ := 1000
def metricsWatchdogTimeoutMs : ℕ := 1500

def checkedSub (instant duration : ℕ) : Option ℕ :=
  if duration ≤ instant then some (instant-duration) else none

structure LeaseState where
  expiresAt : ℕ
  duration : ℕ
  isLeader : Bool
  failoverAnchor : Option ℕ

namespace LeaseState

/-- A new lease, already expired. -/
def withDuration (now duration : ℕ) : LeaseState :=
  ⟨(checkedSub now (1000*nanosPerMilli)).getD now,duration,false,none⟩

def isValid (l : LeaseState) (now : ℕ) : Bool := l.isLeader && now < l.expiresAt

def renew (l : LeaseState) (now quorumAckAge : ℕ) : LeaseState :=
  {l with expiresAt := (checkedSub now quorumAckAge).getD now+l.duration}

def expire (l : LeaseState) (now : ℕ) : LeaseState :=
  {l with expiresAt := (checkedSub now 1).getD now}

def updateFromRaft (l : LeaseState) (now : ℕ) (isLeader hasQuorum : Bool) (quorumAckAge : ℕ) :
    LeaseState :=
  if isLeader && hasQuorum then {l with isLeader := isLeader}.renew now quorumAckAge
  else {l with isLeader := isLeader}.expire now

/-- The anchor a promotion measures from, stamped now when there is none. -/
def promotionAnchor (l : LeaseState) (now : ℕ) : ℕ × LeaseState :=
  match l.failoverAnchor with
  | some anchor => (anchor,l)
  | none => (now,{l with failoverAnchor := some now})

/-- Clear the anchor that was seen, unless it has been stamped again since. -/
def spendFailoverAnchor (l : LeaseState) (seen : Option ℕ) : LeaseState :=
  if l.failoverAnchor = seen then {l with failoverAnchor := none} else l

theorem expiresAt_expire_le (l : LeaseState) (now : ℕ) : (l.expire now).expiresAt ≤ now := by
  simp only [expire,checkedSub]
  split_ifs <;> simp

section UpdateFromRaft
variable (l : LeaseState) (now : ℕ) (isLeader hasQuorum : Bool) (quorumAckAge : ℕ)

@[simp] theorem updateFromRaft_isLeader :
    (l.updateFromRaft now isLeader hasQuorum quorumAckAge).isLeader = isLeader := by
  rw [updateFromRaft]
  split_ifs <;> rfl

@[simp] theorem updateFromRaft_failoverAnchor :
    (l.updateFromRaft now isLeader hasQuorum quorumAckAge).failoverAnchor = l.failoverAnchor := by
  rw [updateFromRaft]
  split_ifs <;> rfl

end UpdateFromRaft

end LeaseState

/-- What the governor reads of one publication of the Raft metrics. -/
structure MetricsView where
  currentLeader : Option NodeId
  currentTerm : ℕ
  millisSinceQuorumAck : Option ℕ
  voterCount : ℕ

def hasQuorumDecision (isLeader leaderKnown : Bool) (voterCount : ℕ)
    (millisSinceQuorumAck : Option ℕ) : Bool :=
  if !isLeader then leaderKnown
  else if voterCount = 1 then true
  else match millisSinceQuorumAck with
    | some ms => ms < quorumTimeoutMs
    | none => false

def hasQuorum (m : MetricsView) (isLeader : Bool) : Bool :=
  hasQuorumDecision isLeader m.currentLeader.isSome m.voterCount m.millisSinceQuorumAck

def quorumAckAge (m : MetricsView) (isLeader : Bool) : ℕ :=
  if !isLeader then 0
  else if m.voterCount = 1 then 0
  else m.millisSinceQuorumAck.elim 0 (·*nanosPerMilli)

def updateLeaseState (l : LeaseState) (now : ℕ) (nodeId : NodeId) (m : MetricsView) : LeaseState :=
  let isLeader := m.currentLeader = some nodeId
  l.updateFromRaft now isLeader (hasQuorum m isLeader) (quorumAckAge m isLeader)

end Lease
end PgBattery
