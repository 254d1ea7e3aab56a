import PgBattery.Postcard
import PgBattery.LogApply

/-! The stored layouts: every record of the Raft store and the two snapshot layouts. -/
namespace PgBattery
namespace Layout
open StateMachine LogApply Postcard

def socketAddr : Codec SocketAddr :=
  enum
    [.of (pair (array 4) u16) (fun p => .v4 p.1 p.2)
        fun | .v4 octets port => some (octets,port) | .v6 .. => none,
      .of (pair (array 16) u16) (fun p => .v6 p.1 p.2)
        fun | .v6 octets port => some (octets,port) | .v4 .. => none]
    (by decide)

def nodeRole : Codec NodeRole := enum [.constant .leader,.constant .follower] (by decide)

def nodeInfo : Codec NodeInfo :=
  (pair u64 (pair socketAddr (pair socketAddr (pair socketAddr (pair socketAddr
    (pair nodeRole u64)))))).imap
    (fun (id,pg,raft,mgmt,metrics,role,seen) => ⟨id,pg,raft,mgmt,metrics,role,seen⟩)
    (fun n => (n.id,n.pgAddr,n.raftAddr,n.mgmtAddr,n.metricsAddr,n.role,n.lastSeen))
    fun _ => rfl

def cutoverPhase : Codec CutoverPhase :=
  enum [.constant .idle,.constant .armed,.constant .sealing,.constant .sealed,.constant .draining,
    .constant .transferred,.constant .aborted] (by decide)

def cutoverAuthorityState : Codec CutoverAuthorityState :=
  (pair u64 (pair (option string) (pair cutoverPhase (pair (option u64) (pair (option string)
    (pair (option string) (pair bool (pair (seq string) (option string))))))))).imap
    (fun (epoch,authority,phase,lsn,target,addr,forced,roles,cluster) =>
      ⟨epoch,authority,phase,lsn,target,addr,forced,roles,cluster⟩)
    (fun c => (c.epoch,c.authorityClusterId,c.phase,c.sealedFinalLsn,c.targetClusterId,
      c.targetPgAddr,c.transferForced,c.fencedAppRoles,c.clusterId))
    fun _ => rfl

def pgUpgradeState : Codec PgUpgradeState :=
  (pair bool (seq u64)).imap (fun (frozen,awaiting) => ⟨frozen,awaiting⟩)
    (fun u => (u.frozen,u.awaitingRejoin)) fun _ => rfl

/-- The fields of `ClusterState` that schema 0 stored. -/
structure ClusterStateV0 where
  nodes : Std.ExtTreeMap NodeId NodeInfo
  voterIds : Finset NodeId
  learnerIds : Finset NodeId
  nodeLsns : Std.ExtTreeMap NodeId (U64 × U64)
  maxClusterLsn : U64
  syncReplicationActive : Option Bool

def ClusterStateV0.upgrade (v0 : ClusterStateV0) : ClusterState :=
  {nodes := v0.nodes, voterIds := v0.voterIds, learnerIds := v0.learnerIds
   nodeLsns := v0.nodeLsns, maxClusterLsn := v0.maxClusterLsn
   syncReplicationActive := v0.syncReplicationActive}

def clusterStateV0 : Codec ClusterStateV0 :=
  (pair (map u64 nodeInfo) (pair (set u64) (pair (set u64) (pair (map u64 (pair u64 u64))
    (pair u64 (option bool)))))).imap
    (fun (nodes,voters,learners,lsns,max,active) => ⟨nodes,voters,learners,lsns,max,active⟩)
    (fun s => (s.nodes,s.voterIds,s.learnerIds,s.nodeLsns,s.maxClusterLsn,s.syncReplicationActive))
    fun _ => rfl

/-- The current layout extends schema 0 with trailing fields. -/
def clusterState : Codec ClusterState :=
  (pair clusterStateV0 (pair cutoverAuthorityState (pair pgUpgradeState (pair (option u64)
    (pair u32 (pair (seq u64) (pair (option u64) (option u64)))))))).imap
    (fun (v0,cutover,upgrade,applied,level,intent,lineage,term) =>
      ⟨v0.nodes,v0.voterIds,v0.learnerIds,v0.nodeLsns,v0.maxClusterLsn,v0.syncReplicationActive,
        cutover,upgrade,applied,level,intent,lineage,term⟩)
    (fun s => (⟨s.nodes,s.voterIds,s.learnerIds,s.nodeLsns,s.maxClusterLsn,
        s.syncReplicationActive⟩,s.cutover,s.pgUpgrade,s.appliedIndex,s.featureLevel,
        s.voterIntent,s.lineage,s.primaryTerm))
    fun _ => rfl

/-- The current layout, else the schema-0 one; the current layout's error when neither fits. -/
def decodeSnapshot (data : Bytes) : Except Error ClusterState :=
  match clusterState.fromBytes data with
  | .ok s => .ok s
  | .error current => match clusterStateV0.fromBytes data with
    | .ok v0 => .ok v0.upgrade
    | .error _ => .error current

def clusterCommand : Codec ClusterCommand :=
  enum
    [.of nodeInfo .addNode fun | .addNode info => some info | _ => none,
      .of u64 .removeNode fun | .removeNode id => some id | _ => none,
      .of (pair u64 nodeRole) (fun p => .updateNode p.1 p.2)
        fun | .updateNode id role => some (id,role) | _ => none,
      .of (pair u64 (pair u64 u64)) (fun p => .updateLsn p.1 p.2.1 p.2.2)
        fun | .updateLsn id lsn time => some (id,lsn,time) | _ => none,
      .of bool .setSyncMode fun | .setSyncMode active => some active | _ => none,
      .of (pair string string) (fun p => .cutoverArmed p.1 p.2)
        fun | .cutoverArmed target own => some (target,own) | _ => none,
      .of u64 .cutoverSeal fun | .cutoverSeal lsn => some lsn | _ => none,
      .of (seq u64) .pgUpgradeFreeze fun | .pgUpgradeFreeze standbys => some standbys | _ => none,
      .constant .cutoverDrainObserved,
      .of (pair string (pair string bool)) (fun p => .cutoverTransfer p.1 p.2.1 p.2.2)
        fun | .cutoverTransfer target addr forced => some (target,addr,forced) | _ => none,
      .of string .cutoverAbortUnseal fun | .cutoverAbortUnseal own => some own | _ => none,
      .of (pair u64 (pair string string)) (fun p => .cutoverAuthorityReceived p.1 p.2.1 p.2.2)
        fun | .cutoverAuthorityReceived epoch donor own => some (epoch,donor,own) | _ => none,
      .of u32 .setFeatureLevel fun | .setFeatureLevel level => some level | _ => none,
      .of (seq string) .cutoverSealing fun | .cutoverSealing roles => some roles | _ => none,
      .of (option u64) .pgUpgradeServe fun | .pgUpgradeServe lineage => some lineage | _ => none,
      .of u64 .pgUpgradeRejoined fun | .pgUpgradeRejoined id => some id | _ => none,
      .constant .pgUpgradeAbort,
      .of u64 .intendVoter fun | .intendVoter id => some id | _ => none,
      .of u64 .setLineage fun | .setLineage id => some id | _ => none,
      .of (pair string (option string)) (fun p => .nameCluster p.1 p.2)
        fun | .nameCluster own awaits => some (own,awaits) | _ => none,
      .of u64 .primaryOpened fun | .primaryOpened term => some term | _ => none]
    (by decide)

def localStoredMembership : Codec LocalStoredMembership :=
  (pair (option u64) (pair (option u64) (pair u64 (pair (seq (seq u64))
    (seq (pair u64 string)))))).imap
    (fun (index,term,leader,configs,nodes) => ⟨index,term,leader,configs,nodes⟩)
    (fun m => (m.logIdIndex,m.logIdTerm,m.logIdLeaderNodeId,m.configs,m.nodes))
    fun _ => rfl

def logEntryPayload : Codec LogEntryPayload :=
  enum
    [.constant .blank,
      .of clusterCommand .normal fun | .normal cmd => some cmd | _ => none,
      .of localStoredMembership .membership fun | .membership m => some m | _ => none]
    (by decide)

def logEntry : Codec LogEntry :=
  (pair u64 (pair u64 (pair u64 logEntryPayload))).imap
    (fun (index,term,leader,payload) => ⟨index,term,leader,payload⟩)
    (fun e => (e.index,e.term,e.leaderNodeId,e.payload))
    fun _ => rfl

end Layout
end PgBattery
