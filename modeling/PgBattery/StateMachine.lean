import PgBattery.Word

/-! The cluster state machine replicated by Raft: `ClusterState`, its commands, and what applying
a committed command does. -/
namespace PgBattery
namespace StateMachine

abbrev NodeId := U64

/-- Socket addresses as the store's codec sees them. -/
inductive SocketAddr
  | v4 (octets : Vector U8 4) (port : U16)
  | v6 (octets : Vector U8 16) (port : U16)
  deriving DecidableEq

inductive NodeRole
  | leader | follower
  deriving DecidableEq

structure NodeInfo where
  id : NodeId
  pgAddr : SocketAddr
  raftAddr : SocketAddr
  mgmtAddr : SocketAddr
  metricsAddr : SocketAddr
  role : NodeRole
  lastSeen : U64
  deriving DecidableEq

inductive CutoverPhase
  | idle | armed | sealing | sealed | draining | transferred | aborted
  deriving DecidableEq

/-- The write authority of one cluster: the epoch and the name of the cluster that holds it. -/
structure CutoverAuthorityState where
  epoch : U64 := 0
  authorityClusterId : Option String := none
  phase : CutoverPhase := .idle
  sealedFinalLsn : Option U64 := none
  targetClusterId : Option String := none
  targetPgAddr : Option String := none
  transferForced : Bool := false
  fencedAppRoles : List String := []
  clusterId : Option String := none
  deriving DecidableEq

structure PgUpgradeState where
  frozen : Bool := false
  awaitingRejoin : List NodeId := []
  deriving DecidableEq

/-- Commands, in the order of the wire discriminants. -/
inductive ClusterCommand
  | addNode (info : NodeInfo)
  | removeNode (id : NodeId)
  | updateNode (id : NodeId) (role : NodeRole)
  | updateLsn (nodeId : NodeId) (lsnBytes timestamp : U64)
  | setSyncMode (active : Bool)
  | cutoverArmed (targetClusterId localClusterId : String)
  | cutoverSeal (finalLsn : U64)
  | pgUpgradeFreeze (standbys : List NodeId)
  | cutoverDrainObserved
  | cutoverTransfer (targetClusterId targetPgAddr : String) (forced : Bool)
  | cutoverAbortUnseal (localClusterId : String)
  | cutoverAuthorityReceived (epoch : U64) (fromClusterId localClusterId : String)
  | setFeatureLevel (level : U32)
  | cutoverSealing (appRoles : List String)
  | pgUpgradeServe (lineage : Option U64)
  | pgUpgradeRejoined (nodeId : NodeId)
  | pgUpgradeAbort
  | intendVoter (nodeId : NodeId)
  | setLineage (systemIdentifier : U64)
  | nameCluster (clusterId : String) (awaitsAuthorityFrom : Option String)
  | primaryOpened (term : U64)
  deriving DecidableEq

inductive CommandOutcome
  | applied | outOfOrder
  deriving DecidableEq

structure ClusterState where
  nodes : Std.ExtTreeMap NodeId NodeInfo := ∅
  voterIds : Finset NodeId := ∅
  learnerIds : Finset NodeId := ∅
  nodeLsns : Std.ExtTreeMap NodeId (U64 × U64) := ∅
  maxClusterLsn : U64 := 0
  syncReplicationActive : Option Bool := none
  cutover : CutoverAuthorityState := {}
  pgUpgrade : PgUpgradeState := {}
  appliedIndex : Option U64 := none
  featureLevel : U32 := 0
  voterIntent : List NodeId := []
  lineage : Option U64 := none
  primaryTerm : Option U64 := none
  deriving DecidableEq

def ClusterCommand.requiredFeatureLevel : ClusterCommand → U32
  | .addNode _ | .removeNode _ | .updateNode .. | .updateLsn .. | .setSyncMode _ => 0
  | .cutoverArmed .. | .cutoverSealing _ | .cutoverSeal _ | .pgUpgradeFreeze _
  | .pgUpgradeServe _ | .pgUpgradeRejoined _ | .pgUpgradeAbort | .intendVoter _ | .setLineage _
  | .nameCluster .. | .primaryOpened _ | .cutoverDrainObserved | .cutoverTransfer ..
  | .cutoverAbortUnseal _ | .cutoverAuthorityReceived .. | .setFeatureLevel _ => 1

namespace CutoverAuthorityState

def holdsClientWriteAuthority (c : CutoverAuthorityState) (localClusterId : String) : Bool :=
  if c.clusterId.any (· ≠ localClusterId) then false
  else match c.phase with
    | .sealing | .sealed | .draining => false
    | .idle | .armed | .transferred | .aborted => c.authorityClusterId.all (· = localClusterId)

def bootFenceMayLand (c : CutoverAuthorityState) : Bool :=
  c.phase = .idle ∧ c.authorityClusterId.isNone

def needsNaming (c : CutoverAuthorityState) (clusterId : String) (awaits : Option String) : Bool :=
  c.clusterId.all fun named => named = clusterId && awaits.isSome && c.bootFenceMayLand

/-- Set the name once; a boot fence names the donor only before any cutover entry. -/
def name (c : CutoverAuthorityState) (clusterId : String) (awaits : Option String) :
    CutoverAuthorityState × CommandOutcome :=
  if c.clusterId.any (· ≠ clusterId) then (c,.outOfOrder)
  else
    let authority := if awaits.isSome && c.bootFenceMayLand then awaits else c.authorityClusterId
    ({c with authorityClusterId := authority, clusterId := some clusterId},.applied)

/-- A name is proposed exactly where committing it would change the record. -/
theorem needsNaming_iff (c : CutoverAuthorityState) (clusterId : String) (awaits : Option String) :
    c.needsNaming clusterId awaits ↔
      (c.name clusterId awaits).2 = .applied ∧ (c.name clusterId awaits).1 ≠ c := by
  rcases c with ⟨epoch,authority,phase,sealedFinalLsn,target,pgAddr,forced,roles,named⟩
  cases named with
  | none => simp [needsNaming,name]
  | some named =>
    by_cases hn : named = clusterId
    · cases awaits <;> cases authority <;> by_cases hp : phase = .idle <;>
        simp [needsNaming,name,bootFenceMayLand,hn,hp]
    · simp [needsNaming,name,hn]

/-- Authority back to the local cluster in a new epoch. -/
def unsealAuthority (c : CutoverAuthorityState) (localClusterId : String) :
    CutoverAuthorityState × CommandOutcome :=
  match c.phase with
  | .armed | .sealing | .sealed | .draining =>
    ({c with
      epoch := U64.saturatingAdd c.epoch 1, phase := .aborted,
      authorityClusterId := some localClusterId, sealedFinalLsn := none, targetClusterId := none,
      targetPgAddr := none, transferForced := false, fencedAppRoles := []},.applied)
  | .idle | .transferred | .aborted => (c,.outOfOrder)

def mayArm (c : CutoverAuthorityState) (localClusterId : String) : Bool :=
  match c.phase with
  | .idle | .aborted | .transferred => c.holdsClientWriteAuthority localClusterId
  | .armed | .sealing | .sealed | .draining => false

def mayTransfer (c : CutoverAuthorityState) (forced : Bool) : Bool :=
  if forced then c.phase = .sealed ∨ c.phase = .draining else c.phase = .draining

/-- The cutover transitions; every arm refuses out of phase. -/
def applyCutover (c : CutoverAuthorityState) : ClusterCommand →
    CutoverAuthorityState × CommandOutcome
  | .cutoverArmed targetClusterId localClusterId =>
    if c.mayArm localClusterId then
      ({c with
        phase := .armed, authorityClusterId := some localClusterId,
        targetClusterId := some targetClusterId, transferForced := false},.applied)
    else (c,.outOfOrder)
  | .cutoverSealing appRoles =>
    if c.phase = .armed then ({c with phase := .sealing, fencedAppRoles := appRoles},.applied)
    else (c,.outOfOrder)
  | .cutoverSeal finalLsn =>
    if c.phase = .sealing then ({c with phase := .sealed, sealedFinalLsn := some finalLsn},.applied)
    else (c,.outOfOrder)
  | .cutoverDrainObserved =>
    if c.phase = .sealed then ({c with phase := .draining},.applied) else (c,.outOfOrder)
  | .cutoverTransfer targetClusterId targetPgAddr forced =>
    if c.mayTransfer forced then
      ({c with
        epoch := U64.saturatingAdd c.epoch 1, phase := .transferred,
        authorityClusterId := some targetClusterId, targetClusterId := some targetClusterId,
        targetPgAddr := some targetPgAddr, transferForced := forced},.applied)
    else (c,.outOfOrder)
  | .cutoverAbortUnseal localClusterId => c.unsealAuthority localClusterId
  | .cutoverAuthorityReceived epoch fromClusterId localClusterId =>
    if epoch ≤ c.epoch then (c,.outOfOrder)
    else
      ({c with
        epoch := epoch, phase := .transferred, authorityClusterId := some localClusterId,
        targetClusterId := some fromClusterId, targetPgAddr := none, sealedFinalLsn := none,
        transferForced := false, fencedAppRoles := []},.applied)
  | .nameCluster clusterId awaitsAuthorityFrom => c.name clusterId awaitsAuthorityFrom
  | .addNode _ | .removeNode _ | .updateNode .. | .updateLsn .. | .setSyncMode _
  | .pgUpgradeFreeze _ | .setFeatureLevel _ | .pgUpgradeServe _ | .pgUpgradeRejoined _
  | .pgUpgradeAbort | .intendVoter _ | .setLineage _ | .primaryOpened _ => (c,.outOfOrder)

end CutoverAuthorityState

namespace PgUpgradeState

/-- Every step names a goal state, so a step the record already reflects changes nothing. -/
def apply (u : PgUpgradeState) : ClusterCommand → PgUpgradeState × CommandOutcome
  | .pgUpgradeFreeze standbys =>
    if u.frozen ∧ u.awaitingRejoin = standbys then (u,.applied)
    else if u.frozen ∨ u.awaitingRejoin ≠ [] then (u,.outOfOrder)
    else ({frozen := true, awaitingRejoin := standbys},.applied)
  | .pgUpgradeServe _ => ({u with frozen := false},.applied)
  | .pgUpgradeRejoined nodeId =>
    ({u with awaitingRejoin := u.awaitingRejoin.filter (· ≠ nodeId)},.applied)
  | .pgUpgradeAbort =>
    if !u.frozen ∧ u.awaitingRejoin ≠ [] then (u,.outOfOrder) else ({},.applied)
  | .addNode _ | .removeNode _ | .updateNode .. | .updateLsn .. | .setSyncMode _
  | .cutoverArmed .. | .cutoverSeal _ | .cutoverDrainObserved | .cutoverTransfer ..
  | .cutoverAbortUnseal _ | .cutoverAuthorityReceived .. | .setFeatureLevel _
  | .cutoverSealing _ | .intendVoter _ | .setLineage _ | .nameCluster .. | .primaryOpened _ =>
    (u,.outOfOrder)

def leavesStopped (u : PgUpgradeState) (node : NodeId) : Bool := node ∈ u.awaitingRejoin

end PgUpgradeState

namespace ClusterState

def new : ClusterState := {}

def reflects (s : ClusterState) (index : U64) : Bool := s.appliedIndex.any (index ≤ ·)

def noteApplied (s : ClusterState) (index : U64) : ClusterState :=
  if s.reflects index then s else {s with appliedIndex := some index}

def raiseFeatureLevel (s : ClusterState) (level : U32) : ClusterState × CommandOutcome :=
  if level ≤ s.featureLevel then (s,.outOfOrder) else ({s with featureLevel := level},.applied)

def insertSorted (ids : List NodeId) (id : NodeId) : List NodeId :=
  if id ∈ ids then ids else ids.orderedInsert (· ≤ ·) id

def removeNode (s : ClusterState) (id : NodeId) : ClusterState :=
  {s with
    nodes := s.nodes.erase id
    pgUpgrade := {s.pgUpgrade with
      awaitingRejoin := s.pgUpgrade.awaitingRejoin.filter (· ≠ id)}
    voterIntent := s.voterIntent.filter (· ≠ id)}

def applyUpgrade (s : ClusterState) (cmd : ClusterCommand) : ClusterState × CommandOutcome :=
  ({s with pgUpgrade := (s.pgUpgrade.apply cmd).1},(s.pgUpgrade.apply cmd).2)

def applyCutover (s : ClusterState) (cmd : ClusterCommand) : ClusterState × CommandOutcome :=
  ({s with cutover := (s.cutover.applyCutover cmd).1},(s.cutover.applyCutover cmd).2)

/-- Serving again moves the lineage in the same entry, only out of a frozen upgrade. -/
def serveUpgrade (s : ClusterState) : Option U64 → ClusterState × CommandOutcome
  | some swapped =>
    if s.pgUpgrade.frozen then
      {s with lineage := some swapped}.applyUpgrade (.pgUpgradeServe none)
    else s.applyUpgrade (.pgUpgradeServe (some swapped))
  | none => s.applyUpgrade (.pgUpgradeServe none)

def applyAdmitted (s : ClusterState) : ClusterCommand → ClusterState × CommandOutcome
  | .addNode info => ({s with nodes := s.nodes.insert info.id info},.applied)
  | .removeNode id => (s.removeNode id,.applied)
  | .intendVoter nodeId => ({s with voterIntent := insertSorted s.voterIntent nodeId},.applied)
  | .primaryOpened term =>
    if s.primaryTerm.any (term < ·) then (s,.outOfOrder)
    else ({s with primaryTerm := some term},.applied)
  | .setLineage systemIdentifier =>
    if s.lineage.any (· ≠ systemIdentifier) then (s,.outOfOrder)
    else ({s with lineage := some systemIdentifier},.applied)
  | .pgUpgradeServe lineage => s.serveUpgrade lineage
  | .updateNode id role =>
    ({s with nodes := match s.nodes[id]? with
      | some node => s.nodes.insert id {node with role := role}
      | none => s.nodes},.applied)
  | .updateLsn .. => (s,.applied)
  | .setSyncMode active => ({s with syncReplicationActive := some active},.applied)
  | .pgUpgradeFreeze standbys => s.applyUpgrade (.pgUpgradeFreeze standbys)
  | .pgUpgradeRejoined nodeId => s.applyUpgrade (.pgUpgradeRejoined nodeId)
  | .pgUpgradeAbort => s.applyUpgrade .pgUpgradeAbort
  | .setFeatureLevel level => s.raiseFeatureLevel level
  | .cutoverArmed targetClusterId localClusterId =>
    s.applyCutover (.cutoverArmed targetClusterId localClusterId)
  | .cutoverSealing appRoles => s.applyCutover (.cutoverSealing appRoles)
  | .cutoverSeal finalLsn => s.applyCutover (.cutoverSeal finalLsn)
  | .cutoverDrainObserved => s.applyCutover .cutoverDrainObserved
  | .cutoverTransfer targetClusterId targetPgAddr forced =>
    s.applyCutover (.cutoverTransfer targetClusterId targetPgAddr forced)
  | .cutoverAbortUnseal localClusterId => s.applyCutover (.cutoverAbortUnseal localClusterId)
  | .cutoverAuthorityReceived epoch fromClusterId localClusterId =>
    s.applyCutover (.cutoverAuthorityReceived epoch fromClusterId localClusterId)
  | .nameCluster clusterId awaitsAuthorityFrom =>
    s.applyCutover (.nameCluster clusterId awaitsAuthorityFrom)

/-- `setFeatureLevel` is decided before the level is compared. -/
def admits (s : ClusterState) : ClusterCommand → Bool
  | .setFeatureLevel _ => true
  | cmd => cmd.requiredFeatureLevel ≤ s.featureLevel

/-- A command above the committed feature level is a no-op on every replica. -/
def apply (s : ClusterState) (cmd : ClusterCommand) : ClusterState × CommandOutcome :=
  if s.admits cmd then s.applyAdmitted cmd else (s,.outOfOrder)

/-- Apply the command committed at `index`, once. -/
def applyEntry (s : ClusterState) (index : U64) (cmd : ClusterCommand) :
    ClusterState × CommandOutcome :=
  if s.reflects index then (s,.applied) else {s with appliedIndex := some index}.apply cmd

end ClusterState
end StateMachine
end PgBattery
