import PgBattery.Storage
import PgBattery.TransitionSystem

/-! Opening a store: the schema check, the rewrite of an old snapshot and the stamp, as the writes
of one transaction that a crash may cut short at any point. -/
namespace PgBattery
namespace Migration
open StateMachine Layout Postcard Storage TransitionSystem List

/-- The schema a store carries; one without a version adopts as schema 0. -/
def onDisk (db : Db) : Except Storage.Error U32 :=
  match db.metaTable .schemaVersion with
  | some bytes => decodeSchemaVersion bytes
  | none => .ok 0

/-- Whether an open must write the version: there is none, or it is an older one. -/
def mustStamp (db : Db) (version : U32) : Bool :=
  db.metaTable .schemaVersion = none ∨ version ≠ storeSchemaVersion

def stampVersion (stamp : Bool) (db : Db) : Db :=
  if stamp then db.setMeta .schemaVersion (encodeSchemaVersion storeSchemaVersion) else db

/-- Where an open stands: what its transaction has written so far, and whether it will stamp. -/
inductive Stage
  | closed
  | checking (txn : Db)
  | migrating (txn : Db) (stamp : Bool)
  | rewriting (txn : Db) (migrated : Bytes) (stamp : Bool)
  | stamping (txn : Db) (stamp : Bool)
  | committing (txn : Db)
  | opened
  | refused (e : Storage.Error)

structure Store where
  db : Db
  stage : Stage

inductive Event
  | begin
  | proceed
  | crash

section Step
variable (sha256 : Bytes → Bytes)

def proceed (s : Store) : Option Store :=
  match s.stage with
  | .checking txn => match onDisk txn with
    | .error e => some {s with stage := .refused e}
    | .ok version =>
      if storeSchemaVersion < version then some {s with stage := .refused (.schemaNewer version)}
      else if version < 1 then some {s with stage := .migrating txn (mustStamp txn version)}
      else some {s with stage := .stamping txn (mustStamp txn version)}
  | .migrating txn stamp => match txn.snapshotTable .data with
    | none => some {s with stage := .stamping txn stamp}
    | some data => match clusterState.fromBytes data with
      | .ok _ => some {s with stage := .stamping txn stamp}
      | .error _ => match (decodeSnapshot data).mapError .migration with
        | .error e => some {s with stage := .refused e}
        | .ok state => match serialize clusterState state with
          | .error e => some {s with stage := .refused e}
          | .ok migrated =>
            some {s with stage := .rewriting (txn.setSnapshot .data migrated) migrated stamp}
  | .rewriting txn migrated stamp =>
    some {s with stage := .stamping (txn.setSnapshot .dataSha256 (sha256 migrated)) stamp}
  | .stamping txn stamp => some {s with stage := .committing (stampVersion stamp txn)}
  | .committing txn => some ⟨txn,.opened⟩
  | .closed | .opened | .refused _ => none

def step (s : Store) : Event → Option Store
  | .begin => match s.stage with
    | .closed => some {s with stage := .checking s.db}
    | .checking _ | .migrating .. | .rewriting .. | .stamping .. | .committing _ | .opened
    | .refused _ => none
  | .proceed => proceed sha256 s
  | .crash => some {s with stage := .closed}

end Step

def Mismatched (sha256 : Bytes → Bytes) (db : Db) : Prop :=
  ∃ data ∈ db.snapshotTable .data, ∃ digest ∈ db.snapshotTable .dataSha256, digest ≠ sha256 data

instance (sha256 : Bytes → Bytes) (db : Db) : Decidable (Mismatched sha256 db) :=
  inferInstanceAs (Decidable (∃ data ∈ db.snapshotTable .data, ∃ digest ∈ _, _))

/-- The snapshot is in the schema-0 layout and in no other. -/
def OldLayout (db : Db) : Prop :=
  ∃ data ∈ db.snapshotTable .data, (∀ state, clusterState.fromBytes data ≠ .ok state) ∧
    ∃ v0, clusterStateV0.fromBytes data = .ok v0

/-- The store cannot be opened: its version is malformed or newer, or it is of schema 0 with a
snapshot in neither layout. -/
def Unreadable (db : Db) : Prop :=
  (∃ e, onDisk db = .error e) ∨ (∃ version, onDisk db = .ok version ∧ storeSchemaVersion < version) ∨
    onDisk db = .ok 0 ∧ ∃ data ∈ db.snapshotTable .data, ∀ state, decodeSnapshot data ≠ .ok state

structure Kept (db db' : Db) : Prop where
  logs : db'.logs = db.logs
  records : ∀ key, key ≠ .schemaVersion → db'.metaTable key = db.metaTable key
  metadata : db'.snapshotTable .metadata = db.snapshotTable .metadata
  state : (db'.snapshotTable .data).map decodeSnapshot = (db.snapshotTable .data).map decodeSnapshot

section Ensure
variable {sha256 : Bytes → Bytes} {db db' : Db}

theorem ensureSchemaVersion_eq (sha256 : Bytes → Bytes) (db : Db) :
    ensureSchemaVersion sha256 db = match onDisk db with
      | .error e => .error e
      | .ok version =>
        if storeSchemaVersion < version then .error (.schemaNewer version)
        else (if version < 1 then migrateSnapshotV0ToV1 sha256 db else .ok db).map
          (stampVersion (mustStamp db version)) := by
  cases hk : db.metaTable .schemaVersion with
  | none =>
    cases hm : migrateSnapshotV0ToV1 sha256 db <;>
      simp [ensureSchemaVersion,onDisk,mustStamp,stampVersion,hk,hm,storeSchemaVersion,bind,
        Except.bind,Except.map]
  | some bytes =>
    cases hv : decodeSchemaVersion bytes with
    | error e => simp [ensureSchemaVersion,onDisk,hk,hv,bind,Except.bind]
    | ok version =>
      simp only [ensureSchemaVersion,onDisk,mustStamp,hk,hv,bind,Except.bind,
        reduceCtorEq,false_or]
      split_ifs with hn hold hs hs
      · rfl
      all_goals cases migrateSnapshotV0ToV1 sha256 db <;> simp [Except.map,stampVersion,hs]

theorem migrateSnapshotV0ToV1_eq_ok (h : migrateSnapshotV0ToV1 sha256 db = .ok db') :
    (db' = db ∧ ¬OldLayout db) ∨ OldLayout db ∧ ∃ (data : Bytes) (v0 : ClusterStateV0) (migrated : Bytes),
      db.snapshotTable .data = some data ∧ decodeSnapshot data = .ok v0.upgrade ∧
      clusterState.encode v0.upgrade = .ok migrated ∧
      db' = (db.setSnapshot .data migrated).setSnapshot .dataSha256 (sha256 migrated) := by
  cases hd : db.snapshotTable .data with
  | none =>
    simp only [migrateSnapshotV0ToV1,hd,Except.ok.injEq] at h
    exact .inl ⟨h.symm,by simp [OldLayout,hd]⟩
  | some data =>
    cases hc : clusterState.fromBytes data with
    | ok state =>
      simp only [migrateSnapshotV0ToV1,hd,hc,Except.ok.injEq] at h
      exact .inl ⟨h.symm,by simp [OldLayout,hd,hc]⟩
    | error e =>
      cases hold : clusterStateV0.fromBytes data with
      | error e' =>
        simp [migrateSnapshotV0ToV1,hd,decodeSnapshot,hc,hold,Except.mapError,bind,
          Except.bind] at h
      | ok v0 =>
        have hde : decodeSnapshot data = .ok v0.upgrade := by simp [decodeSnapshot,hc,hold]
        cases he : clusterState.encode v0.upgrade with
        | error e' =>
          simp [migrateSnapshotV0ToV1,hd,hc,hde,serialize,he,Except.mapError,bind,
            Except.bind] at h
        | ok migrated =>
          simp only [migrateSnapshotV0ToV1,hd,hc,hde,serialize,he,Except.mapError,bind,
            Except.bind,Except.ok.injEq] at h
          have hl : OldLayout db := ⟨data,hd,fun s hs => by simp [hc] at hs,v0,hold⟩
          exact .inr ⟨hl,data,v0,migrated,rfl,hde,he,h.symm⟩

theorem total_socketAddr : socketAddr.Total :=
  total_enum _ (fun a => by cases a <;> simp [Variant.of]) (by
    simp only [forall_mem_cons,not_mem_nil,IsEmpty.forall_iff,implies_true,and_true]
    exact ⟨total_pair (total_array 4) u16_total,total_pair (total_array 16) u16_total⟩)

theorem total_nodeRole : nodeRole.Total :=
  total_enum _ (fun a => by cases a <;> simp [Variant.constant]) (by
    simp only [forall_mem_cons,not_mem_nil,IsEmpty.forall_iff,implies_true,and_true]
    exact ⟨fun _ => ⟨_,rfl⟩,fun _ => ⟨_,rfl⟩⟩)

theorem total_nodeInfo : nodeInfo.Total :=
  total_imap (total_pair u64_total (total_pair total_socketAddr (total_pair total_socketAddr
    (total_pair total_socketAddr (total_pair total_socketAddr (total_pair total_nodeRole
      u64_total)))))) _

theorem reencodes_clusterStateV0 : clusterStateV0.Reencodes :=
  reencodes_imap (reencodes_pair (reencodes_map u64_total total_nodeInfo)
    (reencodes_pair (reencodes_set u64_total) (reencodes_pair (reencodes_set u64_total)
      (reencodes_pair (reencodes_map u64_total (total_pair u64_total u64_total))
        (reencodes_pair u64_total.reencodes (total_option total_bool).reencodes))))) _ fun _ => rfl

theorem exists_encode_upgrade {data : Bytes} {v0 : ClusterStateV0}
    (h : clusterStateV0.fromBytes data = .ok v0) : ∃ b, clusterState.encode v0.upgrade = .ok b := by
  obtain ⟨x,hx⟩ := reencodes_clusterStateV0.of_fromBytes h
  have hr : ∃ y, (pair cutoverAuthorityState (pair pgUpgradeState (pair (option u64)
      (pair u32 (pair (seq u64) (pair (option u64) (option u64))))))).encode
        ({},{},none,0,[],none,none) = .ok y := ⟨_,rfl⟩
  obtain ⟨y,hy⟩ := hr
  exact ⟨x++y,both_eq_ok.2 ⟨x,y,hx,hy,rfl⟩⟩

theorem onDisk_setMeta (db : Db) :
    onDisk (db.setMeta .schemaVersion (encodeSchemaVersion storeSchemaVersion)) =
      .ok storeSchemaVersion := by
  simp only [onDisk,Db.setMeta,Function.update_self]
  rfl

theorem ensureSchemaVersion_of_onDisk (hk : db.metaTable .schemaVersion ≠ none)
    (hv : onDisk db = .ok storeSchemaVersion) : ensureSchemaVersion sha256 db = .ok db := by
  simp [ensureSchemaVersion_eq,hv,mustStamp,stampVersion,hk,storeSchemaVersion,Except.map]

theorem ensureSchemaVersion_eq_ok (h : ensureSchemaVersion sha256 db = .ok db') :
    (db.metaTable .schemaVersion ≠ none ∧ onDisk db = .ok storeSchemaVersion ∧ db' = db) ∨
      onDisk db = .ok 0 ∧ ∃ w, migrateSnapshotV0ToV1 sha256 db = .ok w ∧
        db' = w.setMeta .schemaVersion (encodeSchemaVersion storeSchemaVersion) := by
  rw [ensureSchemaVersion_eq] at h
  cases hv : onDisk db with
  | error e => simp [hv] at h
  | ok version =>
    simp only [hv] at h
    split_ifs at h with hne hold
    · have hz : version = 0 := Fin.lt_one_iff version |>.1 hold
      subst hz
      cases hm : migrateSnapshotV0ToV1 sha256 db with
      | error e => simp [hm,Except.map] at h
      | ok w =>
        have hs : mustStamp db 0 := by simp [mustStamp,storeSchemaVersion]
        simp only [hm,Except.map,stampVersion,hs,if_true,Except.ok.injEq] at h
        exact .inr ⟨rfl,w,rfl,h.symm⟩
    · have ho : version = storeSchemaVersion := le_antisymm (not_lt.1 hne) (not_lt.1 hold)
      have hk : db.metaTable .schemaVersion ≠ none := by
        intro hn
        simp only [onDisk,hn,Except.ok.injEq] at hv
        rw [← hv] at ho
        exact absurd ho (by decide)
      simp only [Except.map,stampVersion,mustStamp,hk,ho,ne_eq,not_true,or_false,decide_false,
        Bool.false_eq_true,if_false,Except.ok.injEq] at h
      exact .inl ⟨hk,by rw [ho],h.symm⟩

theorem ensureSchemaVersion_idempotent (h : ensureSchemaVersion sha256 db = .ok db') :
    ensureSchemaVersion sha256 db' = .ok db' := by
  rcases ensureSchemaVersion_eq_ok h with ⟨hk,hv,rfl⟩ | ⟨_,w,_,rfl⟩
  · exact h
  · exact ensureSchemaVersion_of_onDisk (by simp [Db.setMeta]) (onDisk_setMeta w)

theorem Kept.refl (db : Db) : Kept db db := ⟨rfl,fun _ _ => rfl,rfl,rfl⟩

theorem Kept.setMeta (h : Kept db db') (bytes : Bytes) : Kept db (db'.setMeta .schemaVersion bytes) :=
  {h with records := fun key hne => (Function.update_of_ne hne _ _).trans (h.records key hne)}

theorem kept_migrateSnapshot (h : migrateSnapshotV0ToV1 sha256 db = .ok db') : Kept db db' := by
  rcases migrateSnapshotV0ToV1_eq_ok h with ⟨rfl,_⟩ | ⟨_,data,v0,migrated,hd,hde,he,rfl⟩
  · exact .refl db'
  · have hr : decodeSnapshot migrated = .ok v0.upgrade := by
      simp [decodeSnapshot,clusterState.fromBytes_encode he]
    refine ⟨rfl,fun _ _ => rfl,rfl,?_⟩
    simp [Db.setSnapshot,hd,hde,hr]

theorem kept_ensureSchemaVersion (h : ensureSchemaVersion sha256 db = .ok db') : Kept db db' := by
  rcases ensureSchemaVersion_eq_ok h with ⟨_,_,rfl⟩ | ⟨_,w,hw,rfl⟩
  · exact .refl db'
  · exact (kept_migrateSnapshot hw).setMeta _

/-- The rewrite fails only where neither layout reads the snapshot. -/
theorem exists_migrateSnapshot_iff (sha256 : Bytes → Bytes) (db : Db) :
    (∃ w, migrateSnapshotV0ToV1 sha256 db = .ok w) ↔
      ∀ data ∈ db.snapshotTable .data, ∃ state, decodeSnapshot data = .ok state := by
  cases hd : db.snapshotTable .data with
  | none => simp [migrateSnapshotV0ToV1,hd]
  | some data =>
    cases hc : clusterState.fromBytes data with
    | ok s => simp [migrateSnapshotV0ToV1,decodeSnapshot,hd,hc]
    | error e =>
      cases hold : clusterStateV0.fromBytes data with
      | error e' =>
        simp [migrateSnapshotV0ToV1,decodeSnapshot,hd,hc,hold,Except.mapError,bind,Except.bind]
      | ok v0 =>
        obtain ⟨migrated,he⟩ := exists_encode_upgrade hold
        simp [migrateSnapshotV0ToV1,decodeSnapshot,hd,hc,hold,serialize,he,Except.mapError,
          bind,Except.bind]

theorem exists_map_eq_ok {α β ε : Type*} (f : α → β) (x : Except ε α) :
    (∃ b, x.map f = .ok b) ↔ ∃ a, x = .ok a := by
  cases x <;> simp [Except.map]

/-- An open fails on the unreadable stores and no others. -/
theorem ensureSchemaVersion_ok_iff (sha256 : Bytes → Bytes) (db : Db) :
    (∃ w, ensureSchemaVersion sha256 db = .ok w) ↔ ¬Unreadable db := by
  rw [ensureSchemaVersion_eq]
  cases hv : onDisk db with
  | error e => simp [Unreadable,hv]
  | ok version =>
    by_cases hn : storeSchemaVersion < version
    · simp [Unreadable,hv,hn]
    · by_cases hold : version < 1
      · have hz : version = 0 := Fin.lt_one_iff version |>.1 hold
        subst hz
        simp only [if_neg hn,if_pos hold,exists_map_eq_ok,exists_migrateSnapshot_iff]
        simp [Unreadable,hv,hn]
      · have ho : version ≠ 0 := fun h => hold (h ▸ by decide)
        simp [Unreadable,hv,hn,hold,ho,Except.map]

theorem not_unreadable_of_oldLayout (hz : onDisk db = .ok 0) (hold : OldLayout db) :
    ¬Unreadable db := by
  obtain ⟨data,hd,hcu,v0,hv0⟩ := hold
  have hr : ∃ state, decodeSnapshot data = .ok state := by
    cases hc : clusterState.fromBytes data with
    | ok state => exact absurd hc (hcu state)
    | error e => exact ⟨v0.upgrade,by simp [decodeSnapshot,hc,hv0]⟩
  rw [Option.mem_def] at hd
  simpa [Unreadable,hz,storeSchemaVersion,hd] using hr

theorem not_mismatched_of_oldLayout (h : ensureSchemaVersion sha256 db = .ok db')
    (hz : onDisk db = .ok 0) (hold : OldLayout db) : ¬Mismatched sha256 db' := by
  rcases ensureSchemaVersion_eq_ok h with ⟨_,ho,_⟩ | ⟨_,w,hw,rfl⟩
  · rw [hz] at ho
    exact absurd (Except.ok.inj ho) (by decide)
  · rcases migrateSnapshotV0ToV1_eq_ok hw with ⟨_,hn⟩ | ⟨_,data,v0,migrated,_,_,_,rfl⟩
    · exact absurd hold hn
    · simp [Mismatched,Db.setMeta,Db.setSnapshot]

theorem mismatched_of_ensureSchemaVersion (h : ensureSchemaVersion sha256 db = .ok db')
    (hold : ¬(onDisk db = .ok 0 ∧ OldLayout db)) (hm : Mismatched sha256 db) :
    Mismatched sha256 db' := by
  rcases ensureSchemaVersion_eq_ok h with ⟨_,_,rfl⟩ | ⟨hz,w,hw,rfl⟩
  · exact hm
  · rcases migrateSnapshotV0ToV1_eq_ok hw with ⟨rfl,_⟩ | ⟨hl,_⟩
    · exact hm
    · exact absurd ⟨hz,hl⟩ hold

end Ensure

def remaining (sha256 : Bytes → Bytes) : Stage → Option (Except Storage.Error Db)
  | .checking txn => some (ensureSchemaVersion sha256 txn)
  | .migrating txn stamp => some ((migrateSnapshotV0ToV1 sha256 txn).map (stampVersion stamp))
  | .rewriting txn migrated stamp =>
    some (.ok (stampVersion stamp (txn.setSnapshot .dataSha256 (sha256 migrated))))
  | .stamping txn stamp => some (.ok (stampVersion stamp txn))
  | .committing txn => some (.ok txn)
  | .refused e => some (.error e)
  | .closed | .opened => none

section Run
variable {sha256 : Bytes → Bytes} {db : Db} {s s' : Store}

theorem remaining_proceed (h : proceed sha256 s = some s') :
    (s'.db = s.db ∧ s'.stage ≠ .opened ∧
        remaining sha256 s'.stage = remaining sha256 s.stage) ∨
      ∃ txn, s.stage = .committing txn ∧ s' = ⟨txn,.opened⟩ := by
  revert h
  fun_cases proceed sha256 s <;> intro h <;> cases h
  case case12 => exact .inr ⟨_,by assumption,rfl⟩
  all_goals
    simp_all [remaining,ensureSchemaVersion_eq,migrateSnapshotV0ToV1,Except.map,bind,Except.bind]

/-- The disk holds the store as it was or as one open leaves it, and every open under way ends as
one from the disk. -/
structure Inv (sha256 : Bytes → Bytes) (db : Db) (s : Store) : Prop where
  durable : s.db = db ∨ ensureSchemaVersion sha256 db = .ok s.db
  pending : ∀ r, remaining sha256 s.stage = some r → r = ensureSchemaVersion sha256 s.db
  done : s.stage = .opened → ensureSchemaVersion sha256 db = .ok s.db

theorem inv_step (h : Inv sha256 db s) {e : Event} (hs : step sha256 s e = some s') :
    Inv sha256 db s' := by
  cases e with
  | begin =>
    cases hst : s.stage with
    | closed =>
      simp only [step,hst,Option.some.injEq] at hs
      subst hs
      exact ⟨h.durable,fun r hr => (Option.some.inj hr).symm,fun hd => by cases hd⟩
    | _ => simp [step,hst] at hs
  | crash =>
    cases hs
    exact ⟨h.durable,fun r hr => (by cases hr),fun hd => by cases hd⟩
  | proceed =>
    rcases remaining_proceed hs with ⟨hdb,hn,hre⟩ | ⟨txn,hst,rfl⟩
    · refine ⟨hdb ▸ h.durable,fun r hr => ?_,fun hd => absurd hd hn⟩
      rw [hdb]
      exact h.pending r (hre ▸ hr)
    · have ht := (h.pending (.ok txn) (by rw [hst]; rfl)).symm
      have ho : ensureSchemaVersion sha256 db = .ok txn := by
        rcases h.durable with hdb | hdb
        · rw [← hdb]
          exact ht
        · rw [ensureSchemaVersion_idempotent hdb,Except.ok.injEq] at ht
          rw [← ht]
          exact hdb
      exact ⟨.inr ho,fun r hr => (by cases hr),fun _ => ho⟩

def Stage.rank : Stage → ℕ
  | .checking _ => 5
  | .migrating .. => 4
  | .rewriting .. => 3
  | .stamping .. => 2
  | .committing _ => 1
  | .closed | .opened | .refused _ => 0

def Stage.Settled (stage : Stage) : Prop := stage = .opened ∨ ∃ e, stage = .refused e

theorem proceed_progress (sha256 : Bytes → Bytes) (s : Store) (ho : s.stage ≠ .closed) :
    s.stage.Settled ∨
      ∃ s', proceed sha256 s = some s' ∧ s'.stage ≠ .closed ∧ s'.stage.rank < s.stage.rank := by
  fun_cases proceed sha256 s <;> simp_all [Stage.rank,Stage.Settled]

theorem exists_settled (sha256 : Bytes → Bytes) (s : Store) (ho : s.stage ≠ .closed) :
    ∃ n s', run (step sha256) s (List.replicate n .proceed) = some s' ∧ s'.stage.Settled := by
  induction hn : s.stage.rank using Nat.strong_induction_on generalizing s with
  | _ rank ih =>
    rcases proceed_progress sha256 s ho with hs | ⟨s₁,hs₁,ho₁,hlt⟩
    · exact ⟨0,s,rfl,hs⟩
    · obtain ⟨n,s',hr,hs⟩ := ih _ (hn ▸ hlt) s₁ ho₁ rfl
      refine ⟨n+1,s',?_,hs⟩
      rw [replicate_succ,run_cons,step,hs₁]
      exact hr

end Run

/-- What any sequence of opens and crashes may leave of a store. -/
structure Faithful (sha256 : Bytes → Bytes) (db : Db) (s : Store) : Prop where
  kept : Kept db s.db
  refused : ∀ e, s.stage = .refused e → s.db = db ∧ Unreadable db
  opened : s.stage = .opened → ¬Unreadable db ∧ ensureSchemaVersion sha256 db = .ok s.db
  digest : Mismatched sha256 db → Mismatched sha256 s.db
  answers : ∃ n s', run (step sha256) ⟨s.db,.closed⟩ (.begin::List.replicate n .proceed) = some s' ∧
    s'.stage.Settled

section Faithful
variable {sha256 : Bytes → Bytes} {db : Db} {s : Store}

theorem faithful_of_inv (h : Inv sha256 db s)
    (hold : ¬(onDisk db = .ok 0 ∧ OldLayout db ∧ Mismatched sha256 db)) : Faithful sha256 db s where
  kept := by
    rcases h.durable with hdb | hdb
    · exact hdb ▸ .refl s.db
    · exact kept_ensureSchemaVersion hdb
  refused e hs := by
    have hf := h.pending (.error e) (by rw [hs]; rfl)
    rcases h.durable with hdb | hdb
    · refine ⟨hdb,?_⟩
      by_contra hr
      obtain ⟨w,hw⟩ := (ensureSchemaVersion_ok_iff sha256 db).2 hr
      rw [hdb,hw] at hf
      cases hf
    · rw [ensureSchemaVersion_idempotent hdb] at hf
      cases hf
  opened hs := by
    have ho := h.done hs
    exact ⟨(ensureSchemaVersion_ok_iff sha256 db).1 ⟨_,ho⟩,ho⟩
  digest hm := by
    rcases h.durable with hdb | hdb
    · exact hdb ▸ hm
    · exact mismatched_of_ensureSchemaVersion hdb (fun ⟨hz,hl⟩ => hold ⟨hz,hl,hm⟩) hm
  answers := by
    obtain ⟨n,s',hru,hse⟩ := exists_settled sha256 ⟨s.db,.checking s.db⟩ nofun
    exact ⟨n,s',hru,hse⟩

end Faithful

/-- Every sequence of opens and crashes is faithful to a store exactly when the store is not of
schema 0 with a snapshot in the old layout whose digest does not match. -/
theorem open_faithful_iff (sha256 : Bytes → Bytes) (db : Db) :
    (∀ es s, run (step sha256) ⟨db,.closed⟩ es = some s → Faithful sha256 db s) ↔
      ¬(onDisk db = .ok 0 ∧ OldLayout db ∧ Mismatched sha256 db) := by
  constructor
  · rintro ha ⟨hz,hl,hm⟩
    obtain ⟨n,s,hru,hse⟩ := (ha [] ⟨db,.closed⟩ rfl).answers
    have hs := ha _ s hru
    rcases hse with ho | ⟨e,hr⟩
    · exact not_mismatched_of_oldLayout (hs.opened ho).2 hz hl (hs.digest hm)
    · exact not_unreadable_of_oldLayout hz hl (hs.refused e hr).2
  · intro hold es s hru
    have hst : Inv sha256 db ⟨db,.closed⟩ := ⟨.inl rfl,nofun,nofun⟩
    exact faithful_of_inv (run_invariant (fun _ _ _ h => inv_step h) hst hru) hold

/-- A store without a version, with an empty cluster's snapshot in the old layout under a digest
that is not its own. -/
def corrupted : Db where
  logs := ∅
  metaTable _ := none
  snapshotTable
    | .data => some [0,0,0,0,0,0]
    | .dataSha256 => some [1]
    | .metadata => none

theorem digest_replaced : Mismatched id corrupted ∧
    ∃ s ∈ run (step id) ⟨corrupted,.closed⟩ [.begin,.proceed,.proceed,.proceed,.proceed,.proceed],
      (loadSnapshotVerified id corrupted).toBool = false ∧
        (loadSnapshotVerified id s.db).toBool ∧ ¬Mismatched id s.db := by
  decide +kernel

end Migration
end PgBattery
