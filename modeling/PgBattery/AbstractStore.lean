import PgBattery.Storage

/-! What the store is for: a map from index to entry with the last saved records beside it. Every
transaction on the tables is the operation of the same name on this map. -/
namespace PgBattery
namespace AbstractStore
open StateMachine LogApply Layout OrderedMap Postcard Storage

structure Store where
  entries : U64 → Option LogEntry
  vote : Vote
  lastPurged : Option PurgedLogId
  lastApplied : LastAppliedState
  appliedMembership : Option LocalStoredMembership
  snapshot : Option (SnapshotMeta × Bytes)

def Store.empty : Store := ⟨fun _ => none,{},none,{},none,none⟩

def insertAll {ε : Type} (key : ε → U64) (m : U64 → Option ε) (es : List ε) : U64 → Option ε :=
  es.foldl (fun m e => Function.update m (key e) (some e)) m

def Store.append (st : Store) (entries : List LogEntry) : Store :=
  {st with entries := insertAll LogEntry.index st.entries entries}

def Store.truncate (st : Store) (index : U64) : Store :=
  {st with entries := fun i => if i < index then st.entries i else none}

def Store.purge (st : Store) (p : PurgedLogId) : Store :=
  {st with entries := fun i => if p.index < i then st.entries i else none, lastPurged := some p}

def LogEncodes (logs : Std.ExtTreeMap U64 Bytes) (entries : U64 → Option LogEntry) : Prop :=
  ∀ i, logs[i]?.map logEntry.fromBytes = (entries i).map .ok ∧
    ∀ e, entries i = some e → e.index = i

structure Represents (sha256 : Bytes → Bytes) (db : Db) (st : Store) : Prop where
  log : LogEncodes db.logs st.entries
  vote : loadVote db = .ok st.vote
  lastPurged : loadLastPurged db = .ok st.lastPurged
  lastApplied : loadLastApplied db = .ok st.lastApplied
  appliedMembership : loadAppliedMembership db = .ok st.appliedMembership
  snapshotMeta : loadSnapshotMeta db = .ok (st.snapshot.map Prod.fst)
  snapshotData : loadSnapshotVerified sha256 db = .ok (st.snapshot.map Prod.snd)
  schema : db.metaTable .schemaVersion = some (encodeSchemaVersion storeSchemaVersion)

variable {b data : Bytes} {logs logs' : Std.ExtTreeMap U64 Bytes} {entries : U64 → Option LogEntry}

theorem serialize_eq_ok {α : Type} {c : Codec α} {a : α} (h : serialize c a = .ok b) :
    c.encode a = .ok b := by
  unfold serialize at h
  cases he : c.encode a <;> rw [he] at h <;> cases h
  rfl

theorem decode_of_serialize {α : Type} {c : Codec α} {a : α} (what : String)
    (h : serialize c a = .ok b) : decode c what b = .ok a := by
  rw [decode,c.fromBytes_encode (serialize_eq_ok h)]
  rfl

theorem loadMeta_setMeta_self {α : Type} {db : Db} {key : MetaKey} {c : Codec α} {a : α}
    (what : String) (h : serialize c a = .ok b) :
    loadMeta (db.setMeta key b) key c what = .ok (some a) := by
  simp [loadMeta,Db.setMeta,decode_of_serialize what h,Except.map]

theorem logEncodes_insert {e : LogEntry} (h : LogEncodes logs entries)
    (hi : insertEntry logs e = .ok logs') :
    LogEncodes logs' (Function.update entries e.index (some e)) := by
  obtain ⟨b,hb,hl⟩ := bind_eq_ok.1 hi
  cases hl
  intro i
  rw [getElem?_insert]
  by_cases hie : e.index = i
  · subst hie
    simp [logEntry.fromBytes_encode (serialize_eq_ok hb)]
  · simp only [if_neg hie,Function.update_of_ne (Ne.symm hie)]
    exact h i

theorem logEncodes_append {es : List LogEntry} (h : LogEncodes logs entries)
    (ha : es.foldlM insertEntry logs = .ok logs') :
    LogEncodes logs' (insertAll LogEntry.index entries es) := by
  induction es generalizing logs entries with
  | nil =>
    cases ha
    exact h
  | cons e es ih =>
    rw [List.foldlM_cons] at ha
    obtain ⟨logs₁,h₁,h₂⟩ := bind_eq_ok.1 ha
    exact ih (logEncodes_insert h h₁) h₂

theorem logEncodes_retain (p : U64 → Bool) (h : LogEncodes logs entries) :
    LogEncodes (retain logs p) fun i => if p i then entries i else none := by
  intro i
  rw [getElem?_retain]
  by_cases hp : p i
  · simpa [hp] using h i
  · simp [hp]

variable {sha256 : Bytes → Bytes} {db db' : Db} {st : Store}

theorem represents_appendEntries {es : List LogEntry} (h : Represents sha256 db st)
    (ha : appendEntries db es = .ok db') : Represents sha256 db' (st.append es) := by
  obtain ⟨logs,hl,hd⟩ := bind_eq_ok.1 ha
  cases hd
  exact {h with log := logEncodes_append h.log hl}

theorem represents_deleteFrom (h : Represents sha256 db st) (index : U64) :
    Represents sha256 (deleteFrom db index) (st.truncate index) := by
  have hl := logEncodes_retain (· < index) h.log
  simp only [decide_eq_true_eq] at hl
  exact {h with log := hl}

theorem represents_deleteUpTo {p : PurgedLogId} (h : Represents sha256 db st)
    (hp : deleteUpTo db p = .ok db') : Represents sha256 db' (st.purge p) := by
  obtain ⟨b,hb,hd⟩ := bind_eq_ok.1 hp
  cases hd
  have hl := logEncodes_retain (p.index < ·) h.log
  simp only [decide_eq_true_eq] at hl
  exact {h with log := hl, lastPurged := loadMeta_setMeta_self _ hb}

theorem represents_saveVote {v : Vote} (h : Represents sha256 db st)
    (hv : saveVote db v = .ok db') : Represents sha256 db' {st with vote := v} := by
  obtain ⟨b,hb,hd⟩ := bind_eq_ok.1 hv
  cases hd
  refine {h with vote := ?_}
  rw [loadVote,loadMeta_setMeta_self _ hb]
  rfl

theorem represents_saveLastApplied {s : LastAppliedState} (h : Represents sha256 db st)
    (hs : saveLastApplied db s = .ok db') : Represents sha256 db' {st with lastApplied := s} := by
  obtain ⟨b,hb,hd⟩ := bind_eq_ok.1 hs
  cases hd
  refine {h with lastApplied := ?_}
  rw [loadLastApplied,loadMeta_setMeta_self _ hb]
  rfl

theorem represents_saveApplied {m : LocalStoredMembership} {s : LastAppliedState}
    (h : Represents sha256 db st)
    (hs : saveAppliedMembershipAndLastApplied db m s = .ok db') :
    Represents sha256 db' {st with appliedMembership := some m, lastApplied := s} := by
  obtain ⟨b,hb,hd⟩ := bind_eq_ok.1 hs
  have hm : Represents sha256 (db.setMeta .appliedMembership b)
      {st with appliedMembership := some m} :=
    {h with appliedMembership := loadMeta_setMeta_self _ hb}
  exact represents_saveLastApplied hm hd

theorem represents_writeSnapshot {m : SnapshotMeta} (h : Represents sha256 db st)
    (hs : saveSnapshot sha256 db m data = .ok db') :
    Represents sha256 db' {st with snapshot := some (m,data)} := by
  obtain ⟨b,hb,hd⟩ := bind_eq_ok.1 hs
  cases hd
  refine {h with snapshotMeta := ?_, snapshotData := ?_}
  · simp [loadSnapshotMeta,Db.setSnapshot,decode_of_serialize _ hb,Except.map]
  · simp [loadSnapshotVerified,Db.setSnapshot]

theorem represents_saveInstalledSnapshot {m : SnapshotMeta} (h : Represents sha256 db st)
    (hs : saveInstalledSnapshot sha256 db m data = .ok db') :
    Represents sha256 db'
      {st with
        snapshot := some (m,data)
        appliedMembership := some m.membership
        lastApplied := m.lastApplied} := by
  obtain ⟨b,hb,hd⟩ := bind_eq_ok.1 hs
  have hw : saveSnapshot sha256 db m data =
      .ok (((db.setSnapshot .data data).setSnapshot .metadata b).setSnapshot .dataSha256
        (sha256 data)) := by
    rw [saveSnapshot,writeSnapshot,hb]
    rfl
  exact represents_saveApplied (represents_writeSnapshot h hw) hd

theorem ensureSchemaVersion_current (h : Represents sha256 db st) :
    ensureSchemaVersion sha256 db = .ok db := by
  rw [ensureSchemaVersion,h.schema]
  rfl

def Db.fresh : Db := ⟨∅,fun _ => none,fun _ => none⟩

theorem represents_fresh (sha256 : Bytes → Bytes) :
    ∃ db, ensureSchemaVersion sha256 Db.fresh = .ok db ∧ Represents sha256 db .empty := by
  refine ⟨_,rfl,?_,rfl,rfl,rfl,rfl,rfl,rfl,rfl⟩
  intro i
  exact ⟨rfl,by intro e h; cases h⟩

theorem mapM_eq_filterMap {α β ε : Type} {f : α → Except ε β} {g : α → Option β} {l : List α}
    (h : ∀ a ∈ l, ∃ b, f a = .ok b ∧ g a = some b) : l.mapM f = .ok (l.filterMap g) := by
  induction l with
  | nil => rfl
  | cons a l ih =>
    obtain ⟨b,hf,hg⟩ := h a List.mem_cons_self
    have hl := ih fun a' ha' => h a' (List.mem_cons_of_mem _ ha')
    rw [List.mapM_cons,hf,hl,List.filterMap_cons,hg]
    rfl

theorem LogEncodes.decode (h : LogEncodes logs entries) {i : U64} (hb : logs[i]? = some b) :
    ∃ e, Storage.decode logEntry "log entry" b = .ok e ∧ entries i = some e := by
  have hi := (h i).1
  rw [hb] at hi
  cases he : entries i with
  | none => simp [he] at hi
  | some e =>
    simp only [he,Option.map_some,Option.some.injEq] at hi
    refine ⟨e,?_,rfl⟩
    rw [Storage.decode,hi]
    rfl

theorem LogEncodes.getElem? {logs : Std.ExtTreeMap U64 Bytes} {entries : U64 → Option LogEntry}
    (h : LogEncodes logs entries) {i : U64} {e : LogEntry} (he : entries i = some e) :
    ∃ b, logs[i]? = some b := by
  have hi := (h i).1
  cases hl : logs[i]? with
  | none => simp [hl,he] at hi
  | some b => exact ⟨b,rfl⟩

theorem getEntries_spec (h : LogEncodes db.logs entries) (start stop : U64) :
    ∃ l, getEntries db start stop = .ok l ∧ l.Pairwise (·.index < ·.index) ∧
      ∀ e, e ∈ l ↔ start ≤ e.index ∧ e.index < stop ∧ entries e.index = some e := by
  refine ⟨(entriesWhere db.logs fun i => start ≤ i ∧ i < stop).filterMap fun e => entries e.1,
    mapM_eq_filterMap ?_,?_,?_⟩
  · rintro ⟨i,b⟩ hm
    exact h.decode (mem_entriesWhere.1 hm).2
  · refine (entriesWhere_sorted _ _).filterMap _ ?_
    rintro ⟨i,b⟩ ⟨j,c⟩ hlt e he e' he'
    rw [(h i).2 e he,(h j).2 e' he']
    exact compare_lt_iff_lt.1 hlt
  · intro e
    rw [List.mem_filterMap]
    constructor
    · rintro ⟨⟨i,b⟩,hm,he⟩
      have hi := (mem_entriesWhere.1 hm).1
      rw [(h i).2 e he]
      simp only [decide_eq_true_eq] at hi
      exact ⟨hi.1,hi.2,he⟩
    · rintro ⟨hs,ht,he⟩
      obtain ⟨b,hb⟩ := h.getElem? he
      exact ⟨(e.index,b),mem_entriesWhere.2 ⟨by simp [hs,ht],hb⟩,he⟩

theorem lastEntry_spec (h : LogEncodes db.logs entries) :
    ∃ last, lastEntry db = .ok last ∧
      (∀ e, last = some e → entries e.index = some e ∧
        ∀ i e', entries i = some e' → i ≤ e.index) ∧
      (last = none → ∀ i, entries i = none) := by
  cases hl : db.logs.toList.getLast? with
  | none =>
    refine ⟨none,by rw [lastEntry,hl],by simp,fun _ i => ?_⟩
    have hn := List.getLast?_eq_none_iff.1 hl
    cases he : entries i with
    | none => rfl
    | some e =>
      obtain ⟨b,hb⟩ := h.getElem? he
      have hm := Std.ExtTreeMap.mem_toList_iff_getElem?_eq_some.2 hb
      rw [hn] at hm
      cases hm
  | some p =>
    obtain ⟨i,b⟩ := p
    have hm := List.mem_of_getLast? hl
    obtain ⟨e,hd,he⟩ := h.decode (Std.ExtTreeMap.mem_toList_iff_getElem?_eq_some.1 hm)
    have hi := (h i).2 e he
    refine ⟨some e,by simp only [lastEntry,hl,hd,Except.map],?_,by simp⟩
    intro _ heq
    cases heq
    refine ⟨by rwa [hi],fun j e' he' => ?_⟩
    obtain ⟨b',hb'⟩ := h.getElem? he'
    have hm' := Std.ExtTreeMap.mem_toList_iff_getElem?_eq_some.2 hb'
    obtain ⟨pre,hp⟩ := List.getLast?_eq_some_iff.1 hl
    have hs : db.logs.toList.Pairwise fun a b => compare a.1 b.1 = .lt :=
      Std.ExtTreeMap.ordered_keys_toList
    rw [hp,List.pairwise_append] at hs
    rw [hp,List.mem_append,List.mem_singleton] at hm'
    rw [hi]
    rcases hm' with hm' | hm'
    · exact (compare_lt_iff_lt.1 (hs.2.2 _ hm' _ (List.mem_singleton.2 rfl))).le
    · cases hm'
      exact le_rfl

end AbstractStore
end PgBattery
