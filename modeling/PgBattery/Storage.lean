import PgBattery.Layout

/-! The Raft store: three tables of encoded records. A write transaction is a function that returns
the next database or fails and leaves the last one in place. -/
namespace PgBattery
namespace Storage
open StateMachine LogApply Layout OrderedMap Postcard

structure Vote where
  term : U64 := 0
  votedFor : Option NodeId := none
  committed : Bool := false
  deriving DecidableEq

structure LastAppliedState where
  lastAppliedTerm : Option U64 := none
  lastAppliedIndex : Option U64 := none
  lastAppliedLeaderNodeId : NodeId := 0
  deriving DecidableEq

structure SnapshotMeta where
  lastApplied : LastAppliedState
  membership : LocalStoredMembership
  deriving DecidableEq

structure PurgedLogId where
  term : U64
  leaderNodeId : NodeId
  index : U64
  deriving DecidableEq

def vote : Codec Vote :=
  (pair u64 (pair (option u64) bool)).imap (fun (term,votedFor,committed) => ⟨term,votedFor,committed⟩)
    (fun v => (v.term,v.votedFor,v.committed)) fun _ => rfl

def lastAppliedState : Codec LastAppliedState :=
  (pair (option u64) (pair (option u64) u64)).imap (fun (term,index,leader) => ⟨term,index,leader⟩)
    (fun s => (s.lastAppliedTerm,s.lastAppliedIndex,s.lastAppliedLeaderNodeId)) fun _ => rfl

def snapshotMeta : Codec SnapshotMeta :=
  (pair lastAppliedState localStoredMembership).imap (fun (applied,m) => ⟨applied,m⟩)
    (fun s => (s.lastApplied,s.membership)) fun _ => rfl

def purgedLogId : Codec PurgedLogId :=
  (pair u64 (pair u64 u64)).imap (fun (term,leader,index) => ⟨term,leader,index⟩)
    (fun p => (p.term,p.leaderNodeId,p.index)) fun _ => rfl

inductive MetaKey
  | schemaVersion | vote | lastPurged | lastApplied | appliedMembership
  deriving DecidableEq

inductive SnapshotKey
  | data | metadata | dataSha256
  deriving DecidableEq

structure Db where
  logs : Std.ExtTreeMap U64 Bytes
  metaTable : MetaKey → Option Bytes
  snapshotTable : SnapshotKey → Option Bytes

inductive Error
  | serialization (e : Postcard.Error)
  | undecodable (what : String) (e : Postcard.Error)
  | invalidSchemaVersion (bytes : ℕ)
  | schemaNewer (onDisk : U32)
  | migration (e : Postcard.Error)
  | snapshotDigestMissing
  | snapshotDigestMismatch
  | snapshotDataMissing
  | snapshotBehind (applied position : U64)
  | positionAhead (index : U64)
  | stateBehind (index : U64)
  deriving DecidableEq

def storeSchemaVersion : U32 := 1

def serialize {α : Type} (c : Codec α) (a : α) : Except Error Bytes :=
  (c.encode a).mapError .serialization

def decode {α : Type} (c : Codec α) (what : String) (bytes : Bytes) : Except Error α :=
  (c.fromBytes bytes).mapError (.undecodable what)

def decodeSchemaVersion : Bytes → Except Error U32
  | [a,b,c,d] => .ok (Fin.ofNat _ (a.val+256*b.val+65536*c.val+16777216*d.val))
  | bytes => .error (.invalidSchemaVersion bytes.length)

def encodeSchemaVersion (v : U32) : Bytes :=
  [Fin.ofNat _ v.val,Fin.ofNat _ (v.val/256),Fin.ofNat _ (v.val/65536),
    Fin.ofNat _ (v.val/16777216)]

def Db.setMeta (db : Db) (key : MetaKey) (bytes : Bytes) : Db :=
  {db with metaTable := Function.update db.metaTable key (some bytes)}

def Db.setSnapshot (db : Db) (key : SnapshotKey) (bytes : Bytes) : Db :=
  {db with snapshotTable := Function.update db.snapshotTable key (some bytes)}

def insertEntry (logs : Std.ExtTreeMap U64 Bytes) (e : LogEntry) :
    Except Error (Std.ExtTreeMap U64 Bytes) := do
  .ok (logs.insert e.index (← serialize logEntry e))

def appendEntries (db : Db) (entries : List LogEntry) : Except Error Db := do
  .ok {db with logs := ← entries.foldlM insertEntry db.logs}

def deleteFrom (db : Db) (fromIndex : U64) : Db :=
  {db with logs := retain db.logs (· < fromIndex)}

def deleteUpTo (db : Db) (purge : PurgedLogId) : Except Error Db := do
  .ok ({db with logs := retain db.logs (purge.index < ·)}.setMeta .lastPurged
    (← serialize purgedLogId purge))

def loadMeta {α : Type} (db : Db) (key : MetaKey) (c : Codec α) (what : String) :
    Except Error (Option α) :=
  match db.metaTable key with
  | some bytes => (decode c what bytes).map some
  | none => .ok none

def loadLastPurged (db : Db) : Except Error (Option PurgedLogId) :=
  loadMeta db .lastPurged purgedLogId "purge point"

/-- The entries from `start` up to, not including, `stop`. -/
def getEntries (db : Db) (start stop : U64) : Except Error (List LogEntry) :=
  (entriesWhere db.logs fun i => start ≤ i ∧ i < stop).mapM fun e =>
    decode logEntry "log entry" e.2

def lastEntry (db : Db) : Except Error (Option LogEntry) :=
  match db.logs.toList.getLast? with
  | some e => (decode logEntry "log entry" e.2).map some
  | none => .ok none

def saveVote (db : Db) (v : Vote) : Except Error Db := do
  .ok (db.setMeta .vote (← serialize vote v))

def loadVote (db : Db) : Except Error Vote :=
  (loadMeta db .vote vote "vote record").map (·.getD {})

def saveLastApplied (db : Db) (s : LastAppliedState) : Except Error Db := do
  .ok (db.setMeta .lastApplied (← serialize lastAppliedState s))

def loadLastApplied (db : Db) : Except Error LastAppliedState :=
  (loadMeta db .lastApplied lastAppliedState "last-applied state").map (·.getD {})

def saveAppliedMembershipAndLastApplied (db : Db) (m : LocalStoredMembership)
    (s : LastAppliedState) : Except Error Db := do
  saveLastApplied (db.setMeta .appliedMembership (← serialize localStoredMembership m)) s

def loadAppliedMembership (db : Db) : Except Error (Option LocalStoredMembership) :=
  loadMeta db .appliedMembership localStoredMembership "applied membership"

def loadAppliedPosition (db : Db) :
    Except Error (LastAppliedState × Option LocalStoredMembership) := do
  .ok (← loadLastApplied db,← loadAppliedMembership db)

section Snapshot
variable (sha256 : Bytes → Bytes)

/-- Data, metadata and digest together; an installed snapshot also moves the applied position. -/
def writeSnapshot (db : Db) (m : SnapshotMeta) (data : Bytes) (updateApplied : Bool) :
    Except Error Db := do
  let written := ((db.setSnapshot .data data).setSnapshot .metadata
    (← serialize snapshotMeta m)).setSnapshot .dataSha256 (sha256 data)
  if updateApplied then saveAppliedMembershipAndLastApplied written m.membership m.lastApplied
  else .ok written

def saveSnapshot (db : Db) (m : SnapshotMeta) (data : Bytes) : Except Error Db :=
  writeSnapshot sha256 db m data false

def saveInstalledSnapshot (db : Db) (m : SnapshotMeta) (data : Bytes) : Except Error Db :=
  writeSnapshot sha256 db m data true

def loadSnapshotVerified (db : Db) : Except Error (Option Bytes) :=
  match db.snapshotTable .data with
  | none => .ok none
  | some data => match db.snapshotTable .dataSha256 with
    | none => .error .snapshotDigestMissing
    | some expected =>
      if expected ≠ sha256 data then .error .snapshotDigestMismatch else .ok (some data)

def loadSnapshotMeta (db : Db) : Except Error (Option SnapshotMeta) :=
  match db.snapshotTable .metadata with
  | some bytes => (decode snapshotMeta "snapshot metadata" bytes).map some
  | none => .ok none

/-- Rewrite a schema-0 snapshot in the current layout with a fresh digest. -/
def migrateSnapshotV0ToV1 (db : Db) : Except Error Db :=
  match db.snapshotTable .data with
  | none => .ok db
  | some data => match clusterState.fromBytes data with
    | .ok _ => .ok db
    | .error _ => do
      let state ← (decodeSnapshot data).mapError .migration
      let migrated ← serialize clusterState state
      .ok ((db.setSnapshot .data migrated).setSnapshot .dataSha256 (sha256 migrated))

def ensureSchemaVersion (db : Db) : Except Error Db := do
  let onDisk ← match db.metaTable .schemaVersion with
    | some bytes => decodeSchemaVersion bytes
    | none => .ok 0
  if storeSchemaVersion < onDisk then .error (.schemaNewer onDisk)
  else do
    let db' ← if onDisk < 1 then migrateSnapshotV0ToV1 sha256 db else .ok db
    if db.metaTable .schemaVersion = none ∨ onDisk ≠ storeSchemaVersion then
      .ok (db'.setMeta .schemaVersion (encodeSchemaVersion storeSchemaVersion))
    else .ok db'

end Snapshot

end Storage
end PgBattery
