import PgBattery.AbstractStore

/-! The adapter between openraft's log storage interface and the store, against a pure map from
index to entry with the purge point and the vote beside it. -/
namespace PgBattery
namespace LogStore
open StateMachine LogApply Layout OrderedMap Postcard Storage AbstractStore List

structure LogId where
  term : U64
  nodeId : NodeId
  index : U64
  deriving DecidableEq

/-- openraft's membership: joint configurations whose voters are all among the known nodes. -/
structure JointMembership where
  configs : List (Finset NodeId)
  nodes : Std.ExtTreeMap NodeId String
  known : ∀ config ∈ configs, ∀ id ∈ config, id ∈ nodes

inductive EntryPayload
  | blank
  | normal (command : ClusterCommand)
  | membership (membership : JointMembership)

structure Entry where
  logId : LogId
  payload : EntryPayload

structure OpenRaftVote where
  term : U64
  nodeId : NodeId
  committed : Bool
  deriving DecidableEq

structure LogState where
  lastPurgedLogId : Option LogId
  lastLogId : Option LogId
  deriving DecidableEq

def addMissing (nodes : Std.ExtTreeMap NodeId String) (ids : List NodeId) :
    Std.ExtTreeMap NodeId String :=
  ids.foldl (fun nodes id => nodes.insertIfNew id "") nodes

theorem mem_addMissing (nodes : Std.ExtTreeMap NodeId String) (ids : List NodeId) (id : NodeId) :
    id ∈ addMissing nodes ids ↔ id ∈ nodes ∨ id ∈ ids := by
  induction ids generalizing nodes with
  | nil => simp [addMissing]
  | cons a ids ih =>
    have h := ih (nodes.insertIfNew a "")
    rw [Std.ExtTreeMap.mem_insertIfNew,Std.compare_eq_iff_eq] at h
    rw [addMissing,foldl_cons,← addMissing,h,mem_cons]
    constructor
    · rintro ((rfl | h) | h)
      · exact .inr (.inl rfl)
      · exact .inl h
      · exact .inr (.inr h)
    · rintro (h | rfl | h)
      · exact .inl (.inr h)
      · exact .inl (.inl rfl)
      · exact .inr h

theorem addMissing_eq_self {nodes : Std.ExtTreeMap NodeId String} {ids : List NodeId}
    (h : ∀ id ∈ ids, id ∈ nodes) : addMissing nodes ids = nodes := by
  induction ids with
  | nil => rfl
  | cons a ids ih =>
    have ha : nodes.insertIfNew a "" = nodes := by
      apply Std.ExtTreeMap.ext_getElem?
      intro k
      have hm := h a mem_cons_self
      rw [Std.ExtTreeMap.getElem?_insertIfNew]
      split
      · rename_i hk
        exact absurd hm hk.2
      · rfl
    rw [addMissing,foldl_cons,ha]
    exact ih fun id hid => h id (mem_cons_of_mem _ hid)

/-- A voter missing from the node map is added with an empty address. -/
def JointMembership.new (configs : List (List NodeId)) (nodes : Std.ExtTreeMap NodeId String) :
    JointMembership where
  configs := configs.map List.toFinset
  nodes := addMissing nodes configs.flatten
  known := by
    intro config hc id hid
    obtain ⟨c,hm,rfl⟩ := List.mem_map.1 hc
    rw [mem_addMissing]
    exact Or.inr (List.mem_flatten.2 ⟨c,hm,List.mem_toFinset.1 hid⟩)

def membershipToLocal (logId : Option LogId) (m : JointMembership) : LocalStoredMembership where
  logIdIndex := logId.map LogId.index
  logIdTerm := logId.map LogId.term
  logIdLeaderNodeId := logId.elim 0 LogId.nodeId
  configs := m.configs.map (·.sort (· ≤ ·))
  nodes := m.nodes.toList

def openraftToLogEntry (e : Entry) : LogEntry where
  index := e.logId.index
  term := e.logId.term
  leaderNodeId := e.logId.nodeId
  payload := match e.payload with
    | .blank => .blank
    | .normal command => .normal command
    | .membership m => .membership (membershipToLocal (some e.logId) m)

def logEntryToOpenraft (e : LogEntry) : Entry where
  logId := ⟨e.term,e.leaderNodeId,e.index⟩
  payload := match e.payload with
    | .blank => .blank
    | .normal cmd => .normal cmd
    | .membership m => .membership (.new m.configs (Std.ExtTreeMap.ofList m.nodes))

theorem JointMembership.ext {m m' : JointMembership} (hc : m.configs = m'.configs)
    (hn : m.nodes = m'.nodes) : m = m' := by
  cases m
  cases m'
  simp_all

theorem new_of_stored (m : JointMembership) :
    JointMembership.new (m.configs.map (·.sort (· ≤ ·))) (Std.ExtTreeMap.ofList m.nodes.toList) =
      m := by
  apply JointMembership.ext
  · simp [JointMembership.new,map_map,Function.comp_def]
  · rw [JointMembership.new,ofList_toList]
    apply addMissing_eq_self
    intro id hid
    obtain ⟨c,hc,hid⟩ := List.mem_flatten.1 hid
    obtain ⟨config,hm,rfl⟩ := mem_map.1 hc
    exact m.known config hm id ((Finset.mem_sort _).1 hid)

theorem logEntryToOpenraft_openraftToLogEntry (e : Entry) :
    logEntryToOpenraft (openraftToLogEntry e) = e := by
  obtain ⟨⟨term,nodeId,index⟩,payload⟩ := e
  cases payload with
  | blank => rfl
  | normal command => rfl
  | membership m => simp only [openraftToLogEntry,membershipToLocal,logEntryToOpenraft,new_of_stored]

inductive Bound
  | included (n : U64) | excluded (n : U64) | unbounded
  deriving DecidableEq

def Bound.start : Bound → U64
  | .included n => n
  | .excluded n => U64.saturatingAdd n 1
  | .unbounded => 0

def Bound.stop : Bound → U64
  | .included n => U64.saturatingAdd n 1
  | .excluded n => n
  | .unbounded => U64.max

def tryGetLogEntries (db : Db) (lower upper : Bound) : Except Storage.Error (List Entry) :=
  (getEntries db lower.start upper.stop).map (·.map logEntryToOpenraft)

def getLogState (db : Db) : Except Storage.Error LogState := do
  let last ← lastEntry db
  let lastPurged := (← loadLastPurged db).map fun p => ⟨p.term,p.leaderNodeId,p.index⟩
  .ok ⟨lastPurged,(last.map fun e => ⟨e.term,e.leaderNodeId,e.index⟩).or lastPurged⟩

/-- No vote in the initial state; a vote without a candidate reads as the sentinel node 0. -/
def storedVote (v : Vote) : Option OpenRaftVote :=
  if v.term = 0 ∧ v.votedFor = none then none
  else some ⟨v.term,v.votedFor.getD 0,v.committed⟩

def readVote (db : Db) : Except Storage.Error (Option OpenRaftVote) :=
  (loadVote db).map storedVote

inductive Op
  | append (entries : List Entry)
  | truncate (logId : LogId)
  | purge (logId : LogId)
  | saveVote (v : OpenRaftVote)
  | saveSnapshot (m : SnapshotMeta) (data : Bytes)
  | reopen

def perform (sha256 : Bytes → Bytes) (db : Db) : Op → Except Storage.Error Db
  | .append entries => appendEntries db (entries.map openraftToLogEntry)
  | .truncate logId => .ok (deleteFrom db logId.index)
  | .purge logId => deleteUpTo db ⟨logId.term,logId.nodeId,logId.index⟩
  | .saveVote v => Storage.saveVote db ⟨v.term,some v.nodeId,v.committed⟩
  | .saveSnapshot m data => Storage.saveSnapshot sha256 db m data
  | .reopen => ensureSchemaVersion sha256 db

def performAll (sha256 : Bytes → Bytes) (ops : List Op) : Except Storage.Error Db := do
  ops.foldlM (perform sha256) (← ensureSchemaVersion sha256 Db.fresh)

/-- The records of the operation are short enough to be written. -/
def Op.Encodable : Op → Prop
  | .append entries => ∀ e ∈ entries, ∃ b, logEntry.encode (openraftToLogEntry e) = .ok b
  | .saveSnapshot m _ => ∃ b, snapshotMeta.encode m = .ok b
  | .truncate _ | .purge _ | .saveVote _ | .reopen => True

/-- What openraft may pass: it keeps the index after its last entry in a `u64`, so no entry has the
greatest one. -/
def Op.Passed : Op → Prop
  | .append entries => ∀ e ∈ entries, e.logId.index < U64.max
  | .truncate _ | .purge _ | .saveVote _ | .saveSnapshot .. | .reopen => True

/-- The abstract log: a pure map from index to entry, the purge point and the vote. -/
structure AbstractLog where
  entries : U64 → Option Entry
  lastPurged : Option LogId
  vote : Option OpenRaftVote

def AbstractLog.perform (a : AbstractLog) : Op → AbstractLog
  | .append entries => {a with entries := insertAll (·.logId.index) a.entries entries}
  | .truncate logId => {a with entries := fun i => if i < logId.index then a.entries i else none}
  | .purge logId =>
    {a with
      entries := fun i => if logId.index < i then a.entries i else none
      lastPurged := some logId}
  | .saveVote v => {a with vote := some v}
  | .saveSnapshot .. | .reopen => a

def AbstractLog.performAll (ops : List Op) : AbstractLog :=
  ops.foldl AbstractLog.perform ⟨fun _ => none,none,none⟩

def Bound.above : Bound → U64 → Prop
  | .included n, i => n ≤ i
  | .excluded n, i => n < i
  | .unbounded, _ => True

def Bound.below : Bound → U64 → Prop
  | .included n, i => i ≤ n
  | .excluded n, i => i < n
  | .unbounded, _ => True

/-- Ranges read back as the live entries of the range in index order. -/
def ReadsEntries (db : Db) (a : AbstractLog) : Prop :=
  ∀ lower upper, ∃ l, tryGetLogEntries db lower upper = .ok l ∧
    l.Pairwise (·.logId.index < ·.logId.index) ∧
    ∀ e, e ∈ l ↔ lower.above e.logId.index ∧ upper.below e.logId.index ∧
      a.entries e.logId.index = some e

/-- The log state is the purge point and the greatest live id, or the purge point again. -/
def ReadsLogState (db : Db) (a : AbstractLog) : Prop :=
  ∃ st, getLogState db = .ok st ∧ st.lastPurgedLogId = a.lastPurged ∧
    ((∃ e, a.entries e.logId.index = some e ∧ st.lastLogId = some e.logId ∧
        ∀ i e', a.entries i = some e' → i ≤ e.logId.index) ∨
      (∀ i, a.entries i = none) ∧ st.lastLogId = a.lastPurged)

structure Reads (db : Db) (a : AbstractLog) : Prop where
  entries : ReadsEntries db a
  logState : ReadsLogState db a
  vote : readVote db = .ok a.vote

def view (st : Store) : AbstractLog where
  entries i := (st.entries i).map logEntryToOpenraft
  lastPurged := st.lastPurged.map fun p => ⟨p.term,p.leaderNodeId,p.index⟩
  vote := storedVote st.vote

theorem view_append (st : Store) (entries : List Entry) :
    view (st.append (entries.map openraftToLogEntry)) = (view st).perform (.append entries) := by
  have h : ∀ m : U64 → Option LogEntry,
      (fun i => (insertAll LogEntry.index m (entries.map openraftToLogEntry) i).map
        logEntryToOpenraft) =
      insertAll (·.logId.index) (fun i => (m i).map logEntryToOpenraft) entries := by
    induction entries with
    | nil => exact fun m => rfl
    | cons e entries ih =>
      intro m
      rw [map_cons,insertAll,foldl_cons,← insertAll,ih,insertAll,insertAll,
        foldl_cons]
      congr 1
      funext i
      by_cases hi : i = e.logId.index
      · subst hi
        have hs : (openraftToLogEntry e).index = e.logId.index := rfl
        simp [hs,logEntryToOpenraft_openraftToLogEntry]
      · have hne : i ≠ (openraftToLogEntry e).index := hi
        simp [Function.update_of_ne hi,Function.update_of_ne hne]
  simp only [view,Store.append,AbstractLog.perform,h]

theorem serialize_ok {α : Type} {c : Codec α} {a : α} (h : ∃ b, c.encode a = .ok b) :
    ∃ b, serialize c a = .ok b := by
  obtain ⟨b,hb⟩ := h
  exact ⟨b,by rw [serialize,hb]; rfl⟩

theorem appendEntries_ok (db : Db) {es : List LogEntry}
    (h : ∀ e ∈ es, ∃ b, logEntry.encode e = .ok b) : ∃ db', appendEntries db es = .ok db' := by
  have hf : ∀ logs, ∃ logs', es.foldlM insertEntry logs = .ok logs' := by
    induction es with
    | nil => exact fun logs => ⟨logs,rfl⟩
    | cons e es ih =>
      intro logs
      obtain ⟨b,hb⟩ := serialize_ok (h e mem_cons_self)
      obtain ⟨logs',hl⟩ := ih (fun e' he' => h e' (mem_cons_of_mem _ he'))
        (logs.insert e.index b)
      refine ⟨logs',?_⟩
      rw [foldlM_cons,insertEntry,hb]
      exact hl
  obtain ⟨logs',hl⟩ := hf db.logs
  exact ⟨{db with logs := logs'},by rw [appendEntries,hl]; rfl⟩

/-- Every operation commits, and is the operation of the same name on the abstract log. -/
theorem perform_refines {sha256 : Bytes → Bytes} {db : Db} {st : Store} {op : Op}
    (h : Represents sha256 db st) (he : op.Encodable) :
    ∃ db' st', perform sha256 db op = .ok db' ∧ Represents sha256 db' st' ∧
      view st' = (view st).perform op := by
  cases op with
  | append entries =>
    have he' : ∀ e ∈ entries.map openraftToLogEntry, ∃ b, logEntry.encode e = .ok b := by
      intro e hm
      obtain ⟨e',hm',rfl⟩ := mem_map.1 hm
      exact he e' hm'
    obtain ⟨db',hd⟩ := appendEntries_ok db he'
    exact ⟨db',_,hd,represents_appendEntries h hd,view_append st entries⟩
  | truncate logId =>
    refine ⟨_,_,rfl,represents_deleteFrom h logId.index,?_⟩
    simp only [view,Store.truncate,AbstractLog.perform]
    congr
    funext i
    split <;> rfl
  | purge logId =>
    refine ⟨_,_,rfl,represents_deleteUpTo h rfl,?_⟩
    simp only [view,Store.purge,AbstractLog.perform,Option.map_some]
    congr
    funext i
    split <;> rfl
  | saveVote v =>
    have hs : ∃ db', Storage.saveVote db ⟨v.term,some v.nodeId,v.committed⟩ = .ok db' := ⟨_,rfl⟩
    obtain ⟨db',hs⟩ := hs
    refine ⟨db',_,hs,represents_saveVote h hs,?_⟩
    simp [view,AbstractLog.perform,storedVote]
  | saveSnapshot m data =>
    obtain ⟨b,hb⟩ := serialize_ok he
    have hs : ∃ db', Storage.saveSnapshot sha256 db m data = .ok db' := by
      rw [Storage.saveSnapshot,writeSnapshot,hb]
      exact ⟨_,rfl⟩
    obtain ⟨db',hs⟩ := hs
    exact ⟨db',_,hs,represents_writeSnapshot h hs,rfl⟩
  | reopen => exact ⟨db,st,ensureSchemaVersion_current h,h,rfl⟩

theorem performAll_refines (sha256 : Bytes → Bytes) {ops : List Op} (he : ∀ op ∈ ops, op.Encodable) :
    ∃ db st, performAll sha256 ops = .ok db ∧ Represents sha256 db st ∧
      view st = AbstractLog.performAll ops := by
  have h : ∀ db st, Represents sha256 db st → ∃ db' st', ops.foldlM (perform sha256) db = .ok db' ∧
      Represents sha256 db' st' ∧ view st' = ops.foldl AbstractLog.perform (view st) := by
    induction ops with
    | nil => exact fun db st h => ⟨db,st,rfl,h,rfl⟩
    | cons op ops ih =>
      intro db st h
      obtain ⟨db₁,st₁,hp,h₁,hv⟩ := perform_refines h (he op mem_cons_self)
      obtain ⟨db₂,st₂,hq,h₂,hw⟩ := ih (fun o ho => he o (mem_cons_of_mem _ ho)) db₁ st₁ h₁
      refine ⟨db₂,st₂,?_,h₂,?_⟩
      · rw [foldlM_cons,hp]
        exact hq
      · rw [hw,hv,foldl_cons]
  obtain ⟨db,hop,hr⟩ := represents_fresh sha256
  obtain ⟨db',st',hru,h',hv⟩ := h db .empty hr
  refine ⟨db',st',?_,h',hv⟩
  rw [performAll,hop]
  exact hru

theorem start_le_iff {b : Bound} {i : U64} (hi : i ≠ U64.max) : b.start ≤ i ↔ b.above i := by
  cases b with
  | included n => exact Iff.rfl
  | excluded n => exact U64.saturatingAdd_one_le_iff hi
  | unbounded => simp [Bound.start,Bound.above]

theorem lt_stop_iff {b : Bound} {i : U64} (hi : i ≠ U64.max) : i < b.stop ↔ b.below i := by
  cases b with
  | included n => exact U64.lt_saturatingAdd_one_iff hi
  | excluded n => exact Iff.rfl
  | unbounded => simpa [Bound.stop,Bound.below] using lt_of_le_of_ne (U64.le_max i) hi

theorem view_entries_eq_some {st : Store} {i : U64} {e : Entry} :
    (view st).entries i = some e ↔ ∃ le, st.entries i = some le ∧ logEntryToOpenraft le = e :=
  Option.map_eq_some_iff

section Reads
variable {sha256 : Bytes → Bytes} {db : Db} {st : Store}

theorem reads_vote (h : Represents sha256 db st) : readVote db = .ok (view st).vote := by
  rw [readVote,h.vote]
  rfl

theorem reads_logState (h : Represents sha256 db st) : ReadsLogState db (view st) := by
  obtain ⟨last,hl,hs,hn⟩ := lastEntry_spec h.log
  refine ⟨⟨(view st).lastPurged,
    (last.map fun e => ⟨e.term,e.leaderNodeId,e.index⟩).or (view st).lastPurged⟩,?_,rfl,?_⟩
  · rw [getLogState,hl,h.lastPurged]
    rfl
  · cases last with
    | some e =>
      obtain ⟨he,hm⟩ := hs e rfl
      refine .inl ⟨logEntryToOpenraft e,view_entries_eq_some.2 ⟨e,he,rfl⟩,rfl,?_⟩
      intro i e' he'
      obtain ⟨le,hle,_⟩ := view_entries_eq_some.1 he'
      exact hm i le hle
    | none =>
      refine .inr ⟨fun i => ?_,rfl⟩
      simp [view,hn rfl i]

theorem tryGetLogEntries_spec (h : Represents sha256 db st) (lower upper : Bound) :
    ∃ l, tryGetLogEntries db lower upper = .ok l ∧
      l.Pairwise (·.logId.index < ·.logId.index) ∧
      ∀ e, e ∈ l ↔ lower.start ≤ e.logId.index ∧ e.logId.index < upper.stop ∧
        (view st).entries e.logId.index = some e := by
  obtain ⟨l,hl,hso,hm⟩ := getEntries_spec h.log lower.start upper.stop
  refine ⟨l.map logEntryToOpenraft,by rw [tryGetLogEntries,hl]; rfl,?_,?_⟩
  · rw [pairwise_map]
    exact hso
  · intro e
    rw [mem_map,view_entries_eq_some]
    constructor
    · rintro ⟨le,hle,rfl⟩
      obtain ⟨hs,ht,he⟩ := (hm le).1 hle
      exact ⟨hs,ht,le,he,rfl⟩
    · rintro ⟨hs,ht,le,he,rfl⟩
      exact ⟨le,(hm le).2 ⟨hs,ht,he⟩,rfl⟩

/-- Ranges read back exactly unless an entry lives at the greatest index, which no range reaches. -/
theorem readsEntries_iff (h : Represents sha256 db st) :
    ReadsEntries db (view st) ↔ (view st).entries U64.max = none := by
  constructor
  · intro hr
    obtain ⟨l,hl,_,hm⟩ := hr .unbounded .unbounded
    obtain ⟨l',hl',_,hm'⟩ := tryGetLogEntries_spec h .unbounded .unbounded
    rw [hl] at hl'
    cases hl'
    cases he : (view st).entries U64.max with
    | none => rfl
    | some e =>
      obtain ⟨le,hle,rfl⟩ := view_entries_eq_some.1 he
      have hi : (logEntryToOpenraft le).logId.index = U64.max := (h.log _).2 le hle
      have hin := (hm (logEntryToOpenraft le)).2 ⟨trivial,trivial,by rw [hi,he]⟩
      have hlt := ((hm' _).1 hin).2.1
      rw [hi] at hlt
      exact absurd hlt (lt_irrefl _)
  · intro hma lower upper
    obtain ⟨l,hl,hs,hm⟩ := tryGetLogEntries_spec h lower upper
    refine ⟨l,hl,hs,fun e => ?_⟩
    rw [hm]
    by_cases hi : e.logId.index = U64.max
    · simp [hi,hma]
    · rw [start_le_iff hi,lt_stop_iff hi]

end Reads

/-- After every sequence of operations the adapter reads back the abstract log exactly when no live
entry sits at the greatest index. -/
theorem log_store_refines_iff (sha256 : Bytes → Bytes) (ops : List Op)
    (he : ∀ op ∈ ops, op.Encodable) :
    ∃ db, performAll sha256 ops = .ok db ∧
      (Reads db (AbstractLog.performAll ops) ↔
        (AbstractLog.performAll ops).entries U64.max = none) := by
  obtain ⟨db,st,hru,h,hv⟩ := performAll_refines sha256 he
  rw [← hv]
  refine ⟨db,hru,fun hr => (readsEntries_iff h).1 hr.entries,fun hm => ?_⟩
  exact ⟨(readsEntries_iff h).2 hm,reads_logState h,reads_vote h⟩

theorem insertAll_max {m : U64 → Option Entry} {entries : List Entry}
    (h : ∀ e ∈ entries, e.logId.index < U64.max) (hm : m U64.max = none) :
    insertAll (·.logId.index) m entries U64.max = none := by
  induction entries generalizing m with
  | nil => exact hm
  | cons e entries ih =>
    rw [insertAll,foldl_cons,← insertAll]
    refine ih (fun e' he' => h e' (mem_cons_of_mem _ he')) ?_
    rw [Function.update_of_ne (h e mem_cons_self).ne']
    exact hm

theorem perform_max {a : AbstractLog} {op : Op} (hp : op.Passed) (ha : a.entries U64.max = none) :
    (a.perform op).entries U64.max = none := by
  cases op with
  | append entries => exact insertAll_max hp ha
  | truncate logId => simp [AbstractLog.perform,ha]
  | purge logId => simp [AbstractLog.perform,ha]
  | saveVote v => exact ha
  | saveSnapshot m data => exact ha
  | reopen => exact ha

theorem performAll_max {ops : List Op} (hp : ∀ op ∈ ops, op.Passed) :
    (AbstractLog.performAll ops).entries U64.max = none := by
  have h : ∀ a : AbstractLog, a.entries U64.max = none →
      (ops.foldl AbstractLog.perform a).entries U64.max = none := by
    induction ops with
    | nil => exact fun a ha => ha
    | cons op ops ih =>
      intro a ha
      exact ih (fun o ho => hp o (mem_cons_of_mem _ ho)) _ (perform_max (hp op mem_cons_self) ha)
  exact h _ rfl

/-- After every sequence of operations openraft may perform, the adapter reads back the abstract
log. -/
theorem log_store_refines (sha256 : Bytes → Bytes) (ops : List Op)
    (he : ∀ op ∈ ops, op.Encodable) (hp : ∀ op ∈ ops, op.Passed) :
    ∃ db, performAll sha256 ops = .ok db ∧ Reads db (AbstractLog.performAll ops) := by
  obtain ⟨db,hru,hiff⟩ := log_store_refines_iff sha256 ops he
  exact ⟨db,hru,hiff.2 (performAll_max hp)⟩

/-- Two entries, a vote, a purge of the first entry, and a reopened store. -/
def purgeThenReopen : List Op :=
  [.append [⟨⟨1,1,0⟩,.blank⟩,⟨⟨1,1,1⟩,.normal (.setSyncMode true)⟩],.saveVote ⟨3,2,true⟩,
    .purge ⟨1,1,0⟩,.reopen]

theorem log_store_refines_purgeThenReopen :
    ∃ db, performAll id purgeThenReopen = .ok db ∧
      Reads db (AbstractLog.performAll purgeThenReopen) := by
  apply log_store_refines id purgeThenReopen
  · intro op ho
    simp only [purgeThenReopen,mem_cons,not_mem_nil,or_false] at ho
    rcases ho with rfl | rfl | rfl | rfl
    · intro e he
      simp only [mem_cons,not_mem_nil,or_false] at he
      rcases he with rfl | rfl
      · exact ⟨_,rfl⟩
      · exact ⟨_,rfl⟩
    · trivial
    · trivial
    · trivial
  · intro op ho
    simp only [purgeThenReopen,mem_cons,not_mem_nil,or_false] at ho
    rcases ho with rfl | rfl | rfl | rfl
    · intro e he
      simp only [mem_cons,not_mem_nil,or_false] at he
      rcases he with rfl | rfl
      · decide
      · decide
    · trivial
    · trivial
    · trivial

end LogStore
end PgBattery
