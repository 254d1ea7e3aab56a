import PgBattery.Snapshot
import PgBattery.Commands

/-! One node over its whole life: entries are written and committed, applied in batches with their
position persisted in separate transactions, snapshots are built beside that, the log is purged
under them, and the process crashes and restarts anywhere in between. -/
namespace PgBattery
namespace Recovery
open StateMachine LogApply Layout Postcard Storage AbstractStore LogStore Snapshot TransitionSystem List

/-- The committed entries from index `first` on, numbered contiguously; openraft keeps the next
index in a `u64`, so the last possible one is never used. -/
structure CommittedLog where
  first : ℕ
  entries : List Entry
  indexed : ∀ i e, entries[i]? = some e → e.logId.index.val = first+i
  bounded : first+entries.length < 18446744073709551616

def CommittedLog.last (log : CommittedLog) : ℕ := log.first+log.entries.length

def CommittedLog.get (log : CommittedLog) (i : ℕ) : Option LogEntry :=
  if i < log.first then none else log.entries[i-log.first]?.map openraftToLogEntry

def CommittedLog.slice (log : CommittedLog) (i n : ℕ) : List LogEntry :=
  (List.range' i n).filterMap log.get

structure Batch where
  remaining : List LogEntry
  appliedEnd : U64
  highWater : Option LogEntry
  unsaved : Option (LogEntry × LocalStoredMembership)

inductive Builder
  | idle
  | positioned (lastApplied : LastAppliedState) (membership : Option LocalStoredMembership)
  | captured (m : SnapshotMeta) (data : Bytes)

structure Process where
  state : ClusterState
  appliedEnd : U64
  next : ℕ
  batch : Option Batch
  builder : Builder

structure Node where
  db : Db
  committed : ℕ
  process : Option Process

inductive Step
  | append (entries : List Entry)
  | truncate (index : U64)
  | purge (logId : LogId)
  | commit
  | beginApply (n : ℕ)
  | applyNext
  | persistMembership
  | finishBatch
  | readPosition
  | capture
  | saveSnapshot
  | syncVoterIds (ids : Finset NodeId)
  | crash
  | restart

def Node.write (n : Node) (result : Except Storage.Error Db) : Node :=
  match result with
  | .ok db => {n with db := db}
  | .error _ => n

/-- The position a saved snapshot covers. -/
def coversPurge (db : Db) (index : U64) : Bool :=
  match loadSnapshotMeta db with
  | .ok (some m) => m.lastApplied.lastAppliedIndex.any (index ≤ ·)
  | _ => false

def Process.applyNext (p : Process) (b : Batch) : Option Process :=
  match b.remaining,b.unsaved with
  | e::rest,none =>
    if e.index < b.appliedEnd then some {p with batch := some {b with remaining := rest}}
    else
      let unsaved := match e.payload with
        | .membership m => some (e,m)
        | .blank | .normal _ => none
      some {p with
        state := applyLogEntry p.state e
        batch := some {b with remaining := rest, highWater := some e, unsaved := unsaved}}
  | _,_ => none

def persistMembership (n : Node) (p : Process) (b : Batch) : Option Node :=
  match b.unsaved with
  | some (e,m) =>
    if p.state.reflects e.index then
      match saveAppliedMembershipAndLastApplied n.db m (logIdToLastApplied e) with
      | .ok db => some {n with
          db := db
          process := some {p with
            appliedEnd := U64.saturatingAdd e.index 1, batch := some {b with unsaved := none}}}
      | .error _ => none
    else none
  | none => none

def finishBatch (n : Node) (p : Process) (b : Batch) : Option Node :=
  match b.remaining,b.unsaved,b.highWater with
  | [],none,none => some {n with process := some {p with batch := none}}
  | [],none,some e =>
    if U64.saturatingAdd e.index 1 ≤ p.appliedEnd then
      some {n with process := some {p with batch := none}}
    else if p.state.reflects e.index then
      match saveLastApplied n.db (logIdToLastApplied e) with
      | .ok db => some {n with
          db := db
          process := some {p with appliedEnd := U64.saturatingAdd e.index 1, batch := none}}
      | .error _ => none
    else none
  | _,_,_ => none

/-- What the node is configured with, and whether its metrics watcher writes voter ids. -/
structure Setup where
  platform : Platform
  configured : List PeerConfig
  watchesMetrics : Bool

def Process.readPosition (p : Process) (db : Db) : Option Process :=
  match p.builder,loadAppliedPosition db with
  | .idle,.ok (lastApplied,membership) =>
    some {p with builder := .positioned lastApplied membership}
  | _,_ => none

def Process.capture (p : Process) (π : Platform) : Option Process :=
  match p.builder with
  | .positioned lastApplied membership =>
    match captureSnapshot π p.state lastApplied membership with
    | .ok (m,data) => some {p with builder := .captured m data}
    | .error _ => some {p with builder := .idle}
  | .idle | .captured .. => none

def saveBuilt (π : Platform) (n : Node) (p : Process) : Option Node :=
  match p.builder with
  | .captured m data =>
    some ({n with process := some {p with builder := .idle}}.write
      (Storage.saveSnapshot π.sha256 n.db m data))
  | .idle | .positioned .. => none

def restartNode (c : Setup) (n : Node) : Option Node :=
  match n.process,reboot c.platform c.configured n.db with
  | none,.ok (db,state) =>
    match loadLastApplied db with
    | .ok applied =>
      some {n with
        db := db
        process := some ⟨state,appliedEnd applied,(appliedEnd applied).val,none,.idle⟩}
    | .error _ => none
  | _,_ => none

def step (c : Setup) (log : CommittedLog) (n : Node) : Step → Option Node
  | .append entries =>
    if n.process.isSome ∧ ∀ e ∈ entries, n.committed ≤ e.logId.index.val then
      some (n.write (appendEntries n.db (entries.map openraftToLogEntry)))
    else none
  | .truncate index =>
    if n.process.isSome ∧ n.committed ≤ index.val then
      some {n with db := deleteFrom n.db index}
    else none
  | .purge logId =>
    if n.process.isSome ∧ coversPurge n.db logId.index then
      some (n.write (deleteUpTo n.db ⟨logId.term,logId.nodeId,logId.index⟩))
    else none
  | .commit => (log.get n.committed).bind fun e =>
    if n.process.isSome ∧ (getEntries n.db e.index (U64.saturatingAdd e.index 1)).toOption = some [e] then
      some {n with committed := n.committed+1}
    else none
  | .beginApply k => n.process.bind fun p =>
    if p.batch.isNone ∧ p.next+k ≤ n.committed then
      some {n with process := some {p with
        next := p.next+k, batch := some ⟨log.slice p.next k,p.appliedEnd,none,none⟩}}
    else none
  | .applyNext => n.process.bind fun p => p.batch.bind fun b =>
    (p.applyNext b).map fun p => {n with process := some p}
  | .persistMembership => n.process.bind fun p => p.batch.bind fun b => Recovery.persistMembership n p b
  | .finishBatch => n.process.bind fun p => p.batch.bind fun b => Recovery.finishBatch n p b
  | .readPosition => n.process.bind fun p =>
    (p.readPosition n.db).map fun p => {n with process := some p}
  | .capture => n.process.bind fun p =>
    (p.capture c.platform).map fun p => {n with process := some p}
  | .saveSnapshot => n.process.bind fun p => saveBuilt c.platform n p
  | .syncVoterIds ids => n.process.bind fun p =>
    if c.watchesMetrics then
      some {n with process := some {p with state := {p.state with voterIds := ids}}}
    else none
  | .crash => n.process.map fun _ => {n with process := none}
  | .restart => restartNode c n

/-- The state after the entries before index `k`, each applied once and in order. -/
def exactlyOnce (base : ClusterState) (log : CommittedLog) (k : ℕ) : ClusterState :=
  applyLog base (log.slice log.first (k-log.first))

/-- What `apply` does in memory to re-delivered entries. -/
def deliver (appliedEnd : U64) (s : ClusterState) (entries : List LogEntry) : ClusterState :=
  entries.foldl (fun s e => if e.index < appliedEnd then s else applyLogEntry s e) s

def count : Option U64 → ℕ
  | none => 0
  | some i => i.val+1

@[simp] theorem count_none : count none = 0 := rfl
@[simp] theorem count_some (i : U64) : count (some i) = i.val+1 := rfl

theorem reflects_iff (s : ClusterState) (i : U64) : s.reflects i ↔ i.val < count s.appliedIndex := by
  cases h : s.appliedIndex with
  | none => simp [ClusterState.reflects,h]
  | some a =>
    simp only [ClusterState.reflects,h,Option.any_some,decide_eq_true_eq,count_some,Fin.le_def]
    omega

variable {s base : ClusterState}

theorem applyLogEntry_of_reflects {e : LogEntry} (h : s.reflects e.index) :
    applyLogEntry s e = s := by
  rw [applyLogEntry]
  cases e.payload with
  | blank => simp [ClusterState.noteApplied,h]
  | normal cmd => simp [ClusterState.applyEntry,h]
  | membership m => exact applyMembership_reflected h

theorem appliedIndex_apply (s : ClusterState) (cmd : ClusterCommand) :
    (s.apply cmd).1.appliedIndex = s.appliedIndex := by
  rcases s.apply_cases cmd with h | h
  · rw [h]
  · rw [h,ClusterState.after]

theorem appliedIndex_applyLogEntry {e : LogEntry} (h : ¬ s.reflects e.index) :
    (applyLogEntry s e).appliedIndex = some e.index := by
  rw [applyLogEntry]
  cases e.payload with
  | blank => simp [ClusterState.noteApplied,h]
  | normal cmd => simp [ClusterState.applyEntry,h,appliedIndex_apply]
  | membership m => simp [applyMembership_fresh h]

theorem count_applyLogEntry (s : ClusterState) (e : LogEntry) :
    count (applyLogEntry s e).appliedIndex = max (count s.appliedIndex) (e.index.val+1) := by
  by_cases h : s.reflects e.index
  · rw [applyLogEntry_of_reflects h]
    rw [reflects_iff] at h
    omega
  · rw [appliedIndex_applyLogEntry h,count_some]
    rw [reflects_iff] at h
    omega

section Log
variable {log : CommittedLog} {i n : ℕ} {e : LogEntry}

theorem get_eq_some_iff : log.get i = some e ↔
    log.first ≤ i ∧ ∃ entry, log.entries[i-log.first]? = some entry ∧ openraftToLogEntry entry = e := by
  rw [CommittedLog.get]
  by_cases h : i < log.first
  · simp [h]
  · simp only [if_neg h,Option.map_eq_some_iff]
    exact ⟨fun he => ⟨not_lt.1 h,he⟩,fun he => he.2⟩

theorem index_of_get (h : log.get i = some e) : e.index.val = i := by
  obtain ⟨hi,entry,he,rfl⟩ := get_eq_some_iff.1 h
  have hx := log.indexed _ _ he
  change entry.logId.index.val = i
  omega

theorem first_le_of_get (h : log.get i = some e) : log.first ≤ i := (get_eq_some_iff.1 h).1

theorem lt_last_of_get (h : log.get i = some e) : i < log.last := by
  obtain ⟨hi,entry,he,_⟩ := get_eq_some_iff.1 h
  have hl := (List.getElem?_eq_some_iff.1 he).1
  rw [CommittedLog.last]
  omega

theorem exists_get (hf : log.first ≤ i) (hl : i < log.last) : ∃ e, log.get i = some e := by
  have hlt : i-log.first < log.entries.length := by
    rw [CommittedLog.last] at hl
    omega
  exact ⟨_,get_eq_some_iff.2 ⟨hf,_,List.getElem?_eq_getElem hlt,rfl⟩⟩

theorem slice_succ (h : log.get i = some e) : log.slice i (n+1) = e::log.slice (i+1) n := by
  rw [CommittedLog.slice,range'_succ,filterMap_cons,h]
  rfl

theorem slice_snoc (h : log.get (i+n) = some e) : log.slice i (n+1) = log.slice i n++[e] := by
  rw [CommittedLog.slice,range'_concat,filterMap_append,Nat.one_mul]
  simp [h,CommittedLog.slice]

theorem mem_slice : e ∈ log.slice i n ↔ i ≤ e.index.val ∧ e.index.val < i+n ∧
    log.get e.index.val = some e := by
  rw [CommittedLog.slice,mem_filterMap]
  constructor
  · rintro ⟨j,hj,he⟩
    rw [mem_range'_1] at hj
    rw [index_of_get he]
    exact ⟨hj.1,hj.2,he⟩
  · rintro ⟨hi,hn,he⟩
    exact ⟨e.index.val,mem_range'_1.2 ⟨hi,hn⟩,he⟩

theorem slice_sorted (log : CommittedLog) (i n : ℕ) :
    (log.slice i n).Pairwise (·.index < ·.index) := by
  refine (pairwise_lt_range' (s := i) (n := n)).filterMap _ ?_
  intro a b hab e he e' he'
  rw [Fin.lt_def,index_of_get he,index_of_get he']
  exact hab

theorem saturatingAdd_of_get (h : log.get i = some e) :
    (U64.saturatingAdd e.index 1).val = i+1 := by
  have hi := index_of_get h
  have hl := lt_last_of_get h
  have hb := log.bounded
  rw [CommittedLog.last] at hl
  rw [U64.val_saturatingAdd,U64.val_one]
  omega

end Log

theorem exactlyOnce_succ {log : CommittedLog} {k : ℕ} {e : LogEntry} (h : log.get k = some e) :
    exactlyOnce base log (k+1) = applyLogEntry (exactlyOnce base log k) e := by
  have hf := first_le_of_get h
  have hk : k+1-log.first = (k-log.first)+1 := by omega
  have hg : log.get (log.first+(k-log.first)) = some e := by rwa [Nat.add_sub_cancel' hf]
  rw [exactlyOnce,hk,slice_snoc hg,applyLog,foldl_append]
  rfl

theorem le_count_exactlyOnce {log : CommittedLog} {k : ℕ} (hb : log.first ≤ count base.appliedIndex)
    (hf : log.first ≤ k) (hl : k ≤ log.last) : k ≤ count (exactlyOnce base log k).appliedIndex := by
  induction k, hf using Nat.le_induction with
  | base => simpa [exactlyOnce,applyLog,CommittedLog.slice] using hb
  | succ k hk ih =>
    obtain ⟨e,he⟩ := exists_get hk hl
    rw [exactlyOnce_succ he,count_applyLogEntry,index_of_get he]
    omega

end Recovery
end PgBattery
