import PgBattery.LogStore

/-! Snapshots and the restart: how a snapshot is captured, installed and loaded, and how the applied
tail of the log is replayed over it. -/
namespace PgBattery
namespace Snapshot
open StateMachine LogApply Layout Postcard Storage AbstractStore LogStore

structure Platform where
  sha256 : Bytes → Bytes
  displayAddr : SocketAddr → String

/-- Data ahead of its recorded position is kept, data without a position takes the recorded one,
data behind it is refused. -/
def stateAtSnapshotPosition (s : ClusterState) : Option U64 → Except Storage.Error ClusterState
  | none => .ok s
  | some position => match s.appliedIndex with
    | none => .ok {s with appliedIndex := some position}
    | some applied => if applied < position then .error (.snapshotBehind applied position) else .ok s

/-- The base of a restart, and the first index whose effects it does not include. -/
def loadSnapshotState (π : Platform) (db : Db) : Except Storage.Error (ClusterState × U64) := do
  match ← loadSnapshotMeta db with
  | none => .ok (.new,0)
  | some m => match ← loadSnapshotVerified π.sha256 db with
    | none => .error .snapshotDataMissing
    | some data => do
      let state ← (clusterState.fromBytes data).mapError .serialization
      let state ← stateAtSnapshotPosition state m.lastApplied.lastAppliedIndex
      .ok (state,m.lastApplied.lastAppliedIndex.elim 0 (U64.saturatingAdd · 1))

def replayAppliedEntries (db : Db) (s : ClusterState) (start : U64) :
    Except Storage.Error ClusterState := do
  match (← loadLastApplied db).lastAppliedIndex with
  | none => .ok s
  | some last =>
    if last < start then .ok s
    else .ok (applyLog s (← getEntries db start (U64.saturatingAdd last 1)))

def restore (π : Platform) (configured : List PeerConfig) (db : Db) :
    Except Storage.Error ClusterState := do
  let (state,start) ← loadSnapshotState π db
  replayAppliedEntries db (layerConfigured state configured) start

def reboot (π : Platform) (configured : List PeerConfig) (db : Db) :
    Except Storage.Error (Db × ClusterState) := do
  let db ← ensureSchemaVersion π.sha256 db
  .ok (db,← restore π configured db)

def appliedEnd (s : LastAppliedState) : U64 := s.lastAppliedIndex.elim 0 (U64.saturatingAdd · 1)

def logIdToLastApplied (e : LogEntry) : LastAppliedState :=
  ⟨some e.term,some e.index,e.leaderNodeId⟩

def derivedMembership (π : Platform) (s : ClusterState) : LocalStoredMembership :=
  ⟨none,none,0,[s.voterIds.sort (· ≤ ·)],
    s.nodes.toList.map fun node => (node.1,π.displayAddr node.2.raftAddr)⟩

/-- The second half of building a snapshot: clone and encode the state under the position read. -/
def captureSnapshot (π : Platform) (s : ClusterState) (lastApplied : LastAppliedState)
    (membership : Option LocalStoredMembership) : Except Storage.Error (SnapshotMeta × Bytes) :=
  match lastApplied.lastAppliedIndex.filter fun index => !s.reflects index with
  | some index => .error (.stateBehind index)
  | none =>
    (serialize clusterState s).map fun data =>
      (⟨lastApplied,membership.getD (derivedMembership π s)⟩,data)

structure ReceivedSnapshot where
  lastLogId : Option LogId
  membershipLogId : Option LogId
  membership : JointMembership
  data : Bytes

def ReceivedSnapshot.record (r : ReceivedSnapshot) : SnapshotMeta where
  lastApplied := ⟨r.lastLogId.map LogId.term,r.lastLogId.map LogId.index,r.lastLogId.elim 0 LogId.nodeId⟩
  membership := membershipToLocal r.membershipLogId r.membership

/-- The state in memory becomes the decoded one; the store keeps the bytes as they came. -/
def installSnapshot (π : Platform) (db : Db) (r : ReceivedSnapshot) :
    Except Storage.Error (Db × ClusterState × U64) := do
  let state ← (decodeSnapshot r.data).mapError .serialization
  let state ← stateAtSnapshotPosition state (r.lastLogId.map LogId.index)
  let db ← saveInstalledSnapshot π.sha256 db r.record r.data
  .ok (db,state,appliedEnd r.record.lastApplied)

end Snapshot
end PgBattery
