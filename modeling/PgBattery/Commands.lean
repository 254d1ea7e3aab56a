import PgBattery.StateMachine
import PgBattery.TransitionSystem

/-! What a command does to each part of the applied state, and the states that sequences of commands
reach. -/
namespace PgBattery
namespace StateMachine
open List

def nodesAfter (nodes : Std.ExtTreeMap NodeId NodeInfo) : ClusterCommand →
    Std.ExtTreeMap NodeId NodeInfo
  | .addNode info => nodes.insert info.id info
  | .removeNode id => nodes.erase id
  | .updateNode id role => match nodes[id]? with
    | some node => nodes.insert id {node with role := role}
    | none => nodes
  | _ => nodes

namespace ClusterState

section Parts
variable (s : ClusterState)

def syncReplicationAfter : ClusterCommand → Option Bool
  | .setSyncMode active => some active
  | _ => s.syncReplicationActive

/-- A removed node is not waited for. -/
def upgradeAfter : ClusterCommand → PgUpgradeState
  | .removeNode id => {s.pgUpgrade with awaitingRejoin := s.pgUpgrade.awaitingRejoin.filter (· ≠ id)}
  | cmd => (s.pgUpgrade.apply cmd).1

def levelAfter : ClusterCommand → U32
  | .setFeatureLevel level => max s.featureLevel level
  | _ => s.featureLevel

def intentAfter : ClusterCommand → List NodeId
  | .removeNode id => s.voterIntent.filter (· ≠ id)
  | .intendVoter id => insertSorted s.voterIntent id
  | _ => s.voterIntent

def lineageAfter : ClusterCommand → Option U64
  | .setLineage systemIdentifier => some (s.lineage.getD systemIdentifier)
  | .pgUpgradeServe (some swapped) => if s.pgUpgrade.frozen then some swapped else s.lineage
  | _ => s.lineage

def primaryTermAfter : ClusterCommand → Option U64
  | .primaryOpened term => some (s.primaryTerm.elim term (max term))
  | _ => s.primaryTerm

/-- Everything an admitted command does. -/
def after (cmd : ClusterCommand) : ClusterState :=
  {s with
    nodes := nodesAfter s.nodes cmd
    syncReplicationActive := s.syncReplicationAfter cmd
    cutover := (s.cutover.applyCutover cmd).1
    pgUpgrade := s.upgradeAfter cmd
    featureLevel := s.levelAfter cmd
    voterIntent := s.intentAfter cmd
    lineage := s.lineageAfter cmd
    primaryTerm := s.primaryTermAfter cmd}

theorem serveUpgrade_fst (lineage : Option U64) :
    (s.serveUpgrade lineage).1 = s.after (.pgUpgradeServe lineage) := by
  cases lineage with
  | none => rfl
  | some swapped =>
    by_cases hf : s.pgUpgrade.frozen
    · rw [serveUpgrade,if_pos hf,after,lineageAfter,if_pos hf]
      rfl
    · rw [serveUpgrade,if_neg hf,after,lineageAfter,if_neg hf]
      rfl

theorem primaryOpened_fst (term : U64) :
    (s.applyAdmitted (.primaryOpened term)).1 = s.after (.primaryOpened term) := by
  rw [applyAdmitted,after,primaryTermAfter]
  cases ht : s.primaryTerm with
  | none => rfl
  | some opened =>
    by_cases hlt : term < opened
    · simp only [Option.any_some,decide_eq_true hlt,if_true,Option.elim_some,max_eq_right hlt.le]
      rw [← ht]
      rfl
    · simp only [Option.any_some,decide_eq_false hlt,Bool.false_eq_true,if_false,Option.elim_some,
        max_eq_left (not_lt.1 hlt)]
      rfl

theorem setLineage_fst (systemIdentifier : U64) :
    (s.applyAdmitted (.setLineage systemIdentifier)).1 = s.after (.setLineage systemIdentifier) := by
  rw [applyAdmitted,after,lineageAfter]
  cases hl : s.lineage with
  | none => rfl
  | some lineage =>
    rw [Option.getD_some,← hl]
    by_cases hne : lineage = systemIdentifier
    · subst hne
      simp only [hl,Option.any_some,ne_eq,not_true_eq_false,decide_false,Bool.false_eq_true,if_false]
      rfl
    · simp only [hl,Option.any_some,ne_eq,hne,not_false_eq_true,decide_true,if_true]
      rw [← hl]
      rfl

/-- One account of every command, from which what is left alone can be read off. -/
theorem applyAdmitted_fst (cmd : ClusterCommand) : (s.applyAdmitted cmd).1 = s.after cmd := by
  cases cmd with
  | setFeatureLevel level =>
    rw [applyAdmitted,raiseFeatureLevel]
    split_ifs with hle
    · rw [after,levelAfter,max_eq_left hle]
      rfl
    · rw [after,levelAfter,max_eq_right (le_of_not_ge hle)]
      rfl
  | primaryOpened term => exact s.primaryOpened_fst term
  | setLineage systemIdentifier => exact s.setLineage_fst systemIdentifier
  | pgUpgradeServe lineage => exact s.serveUpgrade_fst lineage
  | _ => rfl

theorem apply_fst (cmd : ClusterCommand) : (s.apply cmd).1 = if s.admits cmd then s.after cmd else s := by
  rw [apply]
  split_ifs with h
  · exact s.applyAdmitted_fst cmd
  · rfl

theorem apply_cases (cmd : ClusterCommand) : (s.apply cmd).1 = s ∨ (s.apply cmd).1 = s.after cmd := by
  rw [apply_fst]
  split_ifs with h
  · exact .inr rfl
  · exact .inl rfl

end Parts

/-- The command took effect, or asked for what already was. -/
def applies (s : ClusterState) (cmd : ClusterCommand) : Bool := (s.apply cmd).2 = .applied

section Sequences
variable {γ : Type} (note : γ → ClusterState → ClusterCommand → γ)

def follow (p : ClusterState × γ) (cmds : List ClusterCommand) : ClusterState × γ :=
  cmds.foldl (fun p cmd => ((p.1.apply cmd).1,note p.2 p.1 cmd)) p

variable {note}

theorem follow_concat (p : ClusterState × γ) (cmds : List ClusterCommand) (cmd : ClusterCommand) :
    follow note p (cmds++[cmd]) = (((follow note p cmds).1.apply cmd).1,
      note (follow note p cmds).2 (follow note p cmds).1 cmd) := foldl_concat ..

theorem follow_invariant {inv : ClusterState × γ → Prop} {p : ClusterState × γ}
    {cmds : List ClusterCommand} (hp : inv p)
    (hs : ∀ s g, ∀ cmd ∈ cmds, inv (s,g) → inv ((s.apply cmd).1,note g s cmd)) :
    inv (follow note p cmds) := by
  induction cmds generalizing p with
  | nil => exact hp
  | cons cmd cmds ih =>
    refine ih (hs p.1 p.2 cmd mem_cons_self hp) fun s g c hc => ?_
    exact hs s g c (mem_cons_of_mem cmd hc)

def noted (note : γ → ClusterState → ClusterCommand → γ) (p : ClusterState × γ) (cmd : ClusterCommand) :
    Option (ClusterState × γ) := some ((p.1.apply cmd).1,note p.2 p.1 cmd)

theorem run_noted (p : ClusterState × γ) (cmds : List ClusterCommand) :
    TransitionSystem.run (noted note) p cmds = some (follow note p cmds) := by
  induction cmds generalizing p with
  | nil => rfl
  | cons cmd cmds ih => exact ih _

end Sequences
end ClusterState

namespace PgUpgradeState

variable {u : PgUpgradeState}

theorem apply_refused {cmd : ClusterCommand} (h : (u.apply cmd).2 = .outOfOrder) :
    (u.apply cmd).1 = u := by
  cases cmd with
  | pgUpgradeFreeze standbys =>
    rw [apply] at h ⊢
    split_ifs at h ⊢ with hsa hb
    rfl
  | pgUpgradeAbort =>
    rw [apply] at h ⊢
    split_ifs at h ⊢ with hs
    rfl
  | pgUpgradeServe lineage => cases h
  | pgUpgradeRejoined id => cases h
  | _ => rfl

theorem apply_freeze (h : u.awaitingRejoin ≠ []) (standbys : List NodeId) :
    (u.apply (.pgUpgradeFreeze standbys)).1 = u ∧
      ((u.apply (.pgUpgradeFreeze standbys)).2 = .applied → u.awaitingRejoin = standbys) := by
  rw [apply]
  split_ifs with hs hb
  · exact ⟨rfl,fun _ => hs.2⟩
  · exact ⟨rfl,fun ho => nomatch ho⟩
  · exact absurd (.inr h) hb

theorem apply_abort (hs : u.frozen = false) (h : u.awaitingRejoin ≠ []) :
    u.apply .pgUpgradeAbort = (u,.outOfOrder) := by
  rw [apply,if_pos]
  exact ⟨by simp [hs],h⟩

/-- Every step names a goal: taken again at once, it applies and changes nothing. -/
theorem apply_again {cmd : ClusterCommand} (h : (u.apply cmd).2 = .applied) :
    (u.apply cmd).1.apply cmd = ((u.apply cmd).1,.applied) := by
  cases cmd with
  | pgUpgradeFreeze standbys =>
    by_cases hs : u.frozen ∧ u.awaitingRejoin = standbys
    · have hk : u.apply (.pgUpgradeFreeze standbys) = (u,.applied) := if_pos hs
      rw [hk,hk]
    · have hf : u.apply (.pgUpgradeFreeze standbys) = (⟨true,standbys⟩,.applied) := by
        rw [apply,if_neg hs] at h ⊢
        split_ifs at h ⊢ with hb
        rfl
      rw [hf]
      exact if_pos ⟨rfl,rfl⟩
  | pgUpgradeServe lineage => rfl
  | pgUpgradeRejoined id => simp only [apply,filter_filter,Bool.and_self]
  | pgUpgradeAbort =>
    have hc : u.apply .pgUpgradeAbort = ({},.applied) := by
      rw [apply] at h ⊢
      split_ifs at h ⊢ with hse
      rfl
    rw [hc]
    rfl
  | _ => cases h

end PgUpgradeState

namespace CutoverAuthorityState

/-- Every way a command moves the cutover record, with what it needs. -/
inductive Moves (c : CutoverAuthorityState) : ClusterCommand → CutoverAuthorityState → Prop
  | armed {target own : String} (h : c.mayArm own = true) :
    Moves c (.cutoverArmed target own)
      {c with
        phase := .armed, authorityClusterId := some own, targetClusterId := some target
        transferForced := false}
  | sealing {roles : List String} (h : c.phase = .armed) :
    Moves c (.cutoverSealing roles) {c with phase := .sealing, fencedAppRoles := roles}
  | sealed {lsn : U64} (h : c.phase = .sealing) :
    Moves c (.cutoverSeal lsn) {c with phase := .sealed, sealedFinalLsn := some lsn}
  | drained (h : c.phase = .sealed) : Moves c .cutoverDrainObserved {c with phase := .draining}
  | transferred {target addr : String} {forced : Bool} (h : c.mayTransfer forced = true) :
    Moves c (.cutoverTransfer target addr forced)
      {c with
        epoch := U64.saturatingAdd c.epoch 1, phase := .transferred, authorityClusterId := some target
        targetClusterId := some target, targetPgAddr := some addr, transferForced := forced}
  | aborted {own : String}
    (h : c.phase = .armed ∨ c.phase = .sealing ∨ c.phase = .sealed ∨ c.phase = .draining) :
    Moves c (.cutoverAbortUnseal own)
      {c with
        epoch := U64.saturatingAdd c.epoch 1, phase := .aborted, authorityClusterId := some own
        sealedFinalLsn := none, targetClusterId := none, targetPgAddr := none, transferForced := false
        fencedAppRoles := []}
  | received {epoch : U64} {donor own : String} (h : c.epoch < epoch) :
    Moves c (.cutoverAuthorityReceived epoch donor own)
      {c with
        epoch := epoch, phase := .transferred, authorityClusterId := some own
        targetClusterId := some donor, targetPgAddr := none, sealedFinalLsn := none
        transferForced := false, fencedAppRoles := []}
  | named {own : String} {awaits : Option String} (h : c.clusterId.all (· = own) = true) :
    Moves c (.nameCluster own awaits)
      {c with
        authorityClusterId := if awaits.isSome && c.bootFenceMayLand then awaits else c.authorityClusterId
        clusterId := some own}

theorem unsealAuthority_cases (c : CutoverAuthorityState) (own : String) :
    c.unsealAuthority own = (c,.outOfOrder) ∨
      ∃ c', c.unsealAuthority own = (c',.applied) ∧ Moves c (.cutoverAbortUnseal own) c' := by
  unfold unsealAuthority
  split
  next h => exact .inr ⟨_,rfl,.aborted (.inl h)⟩
  next h => exact .inr ⟨_,rfl,.aborted (.inr (.inl h))⟩
  next h => exact .inr ⟨_,rfl,.aborted (.inr (.inr (.inl h)))⟩
  next h => exact .inr ⟨_,rfl,.aborted (.inr (.inr (.inr h)))⟩
  all_goals exact .inl rfl

theorem applyCutover_cases (c : CutoverAuthorityState) (cmd : ClusterCommand) :
    c.applyCutover cmd = (c,.outOfOrder) ∨
      ∃ c', c.applyCutover cmd = (c',.applied) ∧ Moves c cmd c' := by
  fun_cases applyCutover c cmd
  case case1 h => exact .inr ⟨_,rfl,.armed h⟩
  case case3 h => exact .inr ⟨_,rfl,.sealing h⟩
  case case5 h => exact .inr ⟨_,rfl,.sealed h⟩
  case case7 h => exact .inr ⟨_,rfl,.drained h⟩
  case case9 h => exact .inr ⟨_,rfl,.transferred h⟩
  case case11 own => exact c.unsealAuthority_cases own
  case case13 h => exact .inr ⟨_,rfl,.received (not_le.1 h)⟩
  case case14 own awaits =>
    by_cases h : c.clusterId.any (· ≠ own)
    · exact .inl (if_pos h)
    · refine .inr ⟨_,if_neg h,.named ?_⟩
      cases hn : c.clusterId with
      | none => rfl
      | some named => simpa [hn] using h
  all_goals exact .inl rfl

theorem applyCutover_refused {c : CutoverAuthorityState} {cmd : ClusterCommand}
    (h : (c.applyCutover cmd).2 = .outOfOrder) : (c.applyCutover cmd).1 = c := by
  rcases c.applyCutover_cases cmd with heq | ⟨c',heq,-⟩
  · rw [heq]
  · rw [heq] at h
    cases h

end CutoverAuthorityState
end StateMachine
end PgBattery
