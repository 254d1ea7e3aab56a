import PgBattery.Recovery

/-! Every restart rebuilds what applying each entry once and in order gives. The argument is over
any relation between a reference state and a node's state that the entries, the configured nodes
and the metrics watcher preserve. -/
namespace PgBattery
namespace ExactlyOnce
open StateMachine LogApply Layout Postcard Storage AbstractStore LogStore Snapshot Recovery
open TransitionSystem

section Simulation
variable (c : Setup) (log : CommittedLog) (base : ClusterState)
variable (R : ClusterState → ClusterState → Prop)

/-- What the argument needs of the relation between the reference and a node's state. -/
structure Simulation : Prop where
  started : log.first ≤ count base.appliedIndex
  applied : ∀ r s, R r s → s.appliedIndex = r.appliedIndex
  entry : ∀ k e s, log.get k = some e → R (exactlyOnce base log k) s →
    R (exactlyOnce base log (k+1)) (applyLogEntry s e)
  layered : ∀ r s, R r s → R r (layerConfigured s c.configured)
  voterIds : ∀ r s ids, c.watchesMetrics → R r s → R r {s with voterIds := ids}

/-- Snapshot data that loads, under its recorded position, as a state the relation places at `j`. -/
def Readable (position : Option U64) (data : Bytes) (j : ℕ) : Prop :=
  ∃ s₀ s, clusterState.fromBytes data = .ok s₀ ∧ stateAtSnapshotPosition s₀ position = .ok s ∧
    R (exactlyOnce base log j) (layerConfigured s c.configured)

/-- The snapshot of the store covers the entries before `q` and loads as a state at `j`. -/
def Loads (st : Store) (q j : ℕ) : Prop :=
  match st.snapshot with
  | none => q = 0 ∧ R (exactlyOnce base log j) (layerConfigured .new c.configured)
  | some (m,data) => q = count m.lastApplied.lastAppliedIndex ∧
    Readable c log base R m.lastApplied.lastAppliedIndex data j

/-- What a restart relies on. -/
structure Durable (n : Node) (st : Store) (q : ℕ) : Prop where
  represents : Represents c.platform.sha256 n.db st
  loads : ∃ j, Loads c log base R st q j ∧ q ≤ j ∧ log.first ≤ j ∧ j ≤ n.committed
  first_le : log.first ≤ count st.lastApplied.lastAppliedIndex
  le_applied : q ≤ count st.lastApplied.lastAppliedIndex
  applied_le : count st.lastApplied.lastAppliedIndex ≤ n.committed
  committed_le : n.committed ≤ log.last
  kept : ∀ i e, q ≤ i → i < n.committed → log.get i = some e → st.entries e.index = some e

/-- The process has applied the entries before `k` of what was delivered; its state is at `m`. -/
structure Running (n : Node) (st : Store) (q : ℕ) (p : Process) (k m : ℕ) : Prop where
  state : R (exactlyOnce base log m) p.state
  le_state : k ≤ m
  state_le : m ≤ n.committed
  appliedEnd : p.appliedEnd.val = count st.lastApplied.lastAppliedIndex
  applied_le : count st.lastApplied.lastAppliedIndex ≤ k
  le_next : k ≤ p.next
  next_le : p.next ≤ n.committed
  idle : p.batch = none → k = p.next
  remaining : ∀ b, p.batch = some b → b.remaining = log.slice k (p.next-k)
  fresh : ∀ b, p.batch = some b → b.appliedEnd.val ≤ k
  highWater : ∀ b e, p.batch = some b → b.highWater = some e →
    log.get e.index.val = some e ∧ e.index.val < k
  unsaved : ∀ b e x, p.batch = some b → b.unsaved = some (e,x) →
    log.get e.index.val = some e ∧ e.index.val < k ∧
      count st.lastApplied.lastAppliedIndex ≤ e.index.val
  positioned : ∀ a x, p.builder = .positioned a x →
    q ≤ max (count a.lastAppliedIndex) log.first ∧
      count a.lastAppliedIndex ≤ count st.lastApplied.lastAppliedIndex
  captured : ∀ x data, p.builder = .captured x data →
    q ≤ max (count x.lastApplied.lastAppliedIndex) log.first ∧
      count x.lastApplied.lastAppliedIndex ≤ count st.lastApplied.lastAppliedIndex ∧
      ∃ j, Readable c log base R x.lastApplied.lastAppliedIndex data j ∧
        count x.lastApplied.lastAppliedIndex ≤ j ∧ log.first ≤ j ∧ j ≤ n.committed

def Inv (n : Node) : Prop :=
  ∃ st q, Durable c log base R n st q ∧
    ∀ p, n.process = some p → ∃ k m, Running c log base R n st q p k m

end Simulation

section Proof
variable {c : Setup} {log : CommittedLog} {base : ClusterState}
variable {R : ClusterState → ClusterState → Prop} {n : Node} {st : Store} {q : ℕ} {p : Process}

variable {s : ClusterState} {m j k : ℕ} {n' : Node}

theorem Simulation.reflects (hR : Simulation c log base R) (h : R (exactlyOnce base log m) s)
    (hf : log.first ≤ m) (hl : m ≤ log.last) {i : U64} (hi : i.val < m) : s.reflects i := by
  rw [reflects_iff,hR.applied _ _ h]
  exact hi.trans_le (le_count_exactlyOnce hR.started hf hl)

/-- Entries the state already reflects are skipped, the others take it on in order. -/
theorem Simulation.applyLog_slice (hR : Simulation c log base R) {i : ℕ}
    (h : R (exactlyOnce base log j) s) (hf : log.first ≤ i) (hi : i ≤ j) (hj : j ≤ log.last)
    (hk : i+k ≤ log.last) :
    R (exactlyOnce base log (max j (i+k))) (applyLog s (log.slice i k)) := by
  induction k generalizing i j s with
  | zero => simpa [applyLog,CommittedLog.slice,max_eq_left hi] using h
  | succ k ih =>
    obtain ⟨e,he⟩ := exists_get hf (by omega : i < log.last)
    rw [slice_succ he,applyLog,List.foldl_cons]
    by_cases hlt : i < j
    · have hr : s.reflects e.index := hR.reflects h (by omega) hj (by rwa [index_of_get he])
      rw [applyLogEntry_of_reflects hr]
      have hih := ih h (by omega) (by omega : i+1 ≤ j) hj (by omega)
      rwa [show i+1+k = i+(k+1) by omega] at hih
    · obtain rfl : j = i := by omega
      have hih := ih (hR.entry _ e s he h) (by omega) le_rfl (by omega) (by omega)
      rwa [show max (j+1) (j+1+k) = max j (j+(k+1)) by omega] at hih

theorem val_elim_saturatingAdd (log : CommittedLog) {position : Option U64}
    (h : count position ≤ log.last) :
    (position.elim 0 (U64.saturatingAdd · 1)).val = count position := by
  have hb := log.bounded
  rw [CommittedLog.last] at h
  cases position with
  | none => rfl
  | some i =>
    rw [Option.elim_some,U64.val_saturatingAdd,U64.val_one]
    simp only [count_some] at h ⊢
    omega

theorem loadSnapshotState_ok (hd : Durable c log base R n st q) :
    ∃ s start j, loadSnapshotState c.platform n.db = .ok (s,start) ∧ start.val = q ∧
      R (exactlyOnce base log j) (layerConfigured s c.configured) ∧ q ≤ j ∧ log.first ≤ j ∧
      j ≤ n.committed := by
  obtain ⟨j,hl,hj⟩ := hd.loads
  have hm := hd.represents.snapshotMeta
  have hv := hd.represents.snapshotData
  rw [Loads] at hl
  cases hs : st.snapshot with
  | none =>
    simp only [hs] at hl hm
    exact ⟨.new,0,j,by rw [loadSnapshotState,hm]; rfl,hl.1.symm,hl.2,hj⟩
  | some x =>
    obtain ⟨m,data⟩ := x
    simp only [hs] at hl hm hv
    obtain ⟨hq,s₀,s,hde,hp,hr⟩ := hl
    refine ⟨s,m.lastApplied.lastAppliedIndex.elim 0 (U64.saturatingAdd · 1),j,?_,?_,hr,hj⟩
    · simp [loadSnapshotState,hm,hv,bind,Except.bind,hde,Except.mapError,hp]
    · rw [hq]
      exact val_elim_saturatingAdd log (hq ▸ hd.le_applied.trans (hd.applied_le.trans hd.committed_le))

theorem applyLog_filter {l : List LogEntry} (keep : LogEntry → Bool)
    (h : ∀ e ∈ l, keep e = false → s.reflects e.index) :
    applyLog s l = applyLog s (l.filter keep) := by
  induction l generalizing s with
  | nil => rfl
  | cons e l ih =>
    have hm : ∀ e' ∈ l, keep e' = false → (applyLogEntry s e).reflects e'.index := by
      intro e' he' hk
      have hr := h e' (List.mem_cons_of_mem _ he') hk
      rw [reflects_iff] at hr ⊢
      rw [count_applyLogEntry]
      omega
    rw [applyLog,List.foldl_cons,← applyLog,ih hm]
    cases hk : keep e with
    | true => simp [hk,applyLog]
    | false => simp [hk,applyLogEntry_of_reflects (h e List.mem_cons_self hk)]

theorem filter_getEntries (hd : Durable c log base R n st q) {start stop : U64}
    (hst : start.val = q) (hsto : stop.val = max q log.first+k)
    (hk : max q log.first+k ≤ n.committed) :
    ∃ l, getEntries n.db start stop = .ok l ∧
      l.filter (fun e => log.first ≤ e.index.val) = log.slice (max q log.first) k := by
  obtain ⟨l,hl,hs,hm⟩ := getEntries_spec hd.represents.log start stop
  refine ⟨l,hl,OrderedMap.eq_of_sorted_of_mem_iff LogEntry.index (hs.filter _)
    (slice_sorted log _ k) fun e => ?_⟩
  rw [List.mem_filter,hm,mem_slice,Fin.le_def,Fin.lt_def,hst,hsto,decide_eq_true_eq,max_le_iff]
  constructor
  · rintro ⟨⟨h₁,h₂,he⟩,h₃⟩
    have hcl := hd.committed_le
    obtain ⟨e',he'⟩ := exists_get h₃ (by omega : e.index.val < log.last)
    have hke := hd.kept _ e' h₁ (by omega) he'
    rw [Fin.ext (index_of_get he'),he] at hke
    cases hke
    exact ⟨⟨h₁,h₃⟩,h₂,he'⟩
  · rintro ⟨⟨h₁,h₃⟩,h₂,he⟩
    exact ⟨⟨h₁,h₂,hd.kept _ e h₁ (by omega) he⟩,h₃⟩

theorem replayAppliedEntries_ok (hR : Simulation c log base R) (hd : Durable c log base R n st q)
    {start : U64} (hs : start.val = q) (hr : R (exactlyOnce base log j) s) (hqj : q ≤ j)
    (hfj : log.first ≤ j) (hjc : j ≤ n.committed) :
    ∃ s', replayAppliedEntries n.db s start = .ok s' ∧
      R (exactlyOnce base log (max j (count st.lastApplied.lastAppliedIndex))) s' := by
  have hcl := hd.committed_le
  have hql := hd.le_applied
  have hfl := hd.first_le
  have hal := hd.applied_le
  rw [replayAppliedEntries,hd.represents.lastApplied]
  cases hla : st.lastApplied.lastAppliedIndex with
  | none => exact ⟨s,by simp [bind,Except.bind,hla],by simpa using hr⟩
  | some last =>
    rw [hla,count_some] at hql hal hfl
    by_cases hlt : last < start
    · rw [Fin.lt_def,hs] at hlt
      refine ⟨s,by simp [bind,Except.bind,hla,Fin.lt_def,hs,hlt],?_⟩
      rwa [count_some,max_eq_left (by omega)]
    · have hst : (U64.saturatingAdd last 1).val =
          max q log.first+(last.val+1-max q log.first) := by
        have hb := log.bounded
        rw [CommittedLog.last] at hcl
        rw [U64.val_saturatingAdd,U64.val_one]
        omega
      obtain ⟨l,hl,hf⟩ := filter_getEntries hd hs hst (by omega)
      refine ⟨applyLog s l,by simp [bind,Except.bind,hla,hlt,hl],?_⟩
      rw [applyLog_filter fun e => log.first ≤ e.index.val,hf]
      · have h := hR.applyLog_slice hr (le_max_right q log.first) (by omega) (by omega)
          (k := last.val+1-max q log.first) (by omega)
        rwa [Nat.add_sub_cancel' (by omega)] at h
      · intro e _ he
        simp only [decide_eq_false_iff_not,not_le] at he
        exact hR.reflects hr hfj (by omega) (by omega)

/-- A restart succeeds and rebuilds a state at or past the durable position. -/
theorem reboot_ok (hR : Simulation c log base R) (hd : Durable c log base R n st q) :
    ∃ s m, reboot c.platform c.configured n.db = .ok (n.db,s) ∧ R (exactlyOnce base log m) s ∧
      count st.lastApplied.lastAppliedIndex ≤ m ∧ m ≤ n.committed := by
  obtain ⟨s,start,j,hl,hs,hr,hqj,hfj,hjc⟩ := loadSnapshotState_ok hd
  obtain ⟨s',hre,hr'⟩ := replayAppliedEntries_ok hR hd hs hr hqj hfj hjc
  refine ⟨s',_,?_,hr',le_max_right _ _,max_le hjc hd.applied_le⟩
  rw [reboot,ensureSchemaVersion_current hd.represents]
  simp [bind,Except.bind,restore,hl,hre]

theorem Durable.of_store {st' : Store} (hd : Durable c log base R n st q)
    (hr : Represents c.platform.sha256 n'.db st') (hc : n'.committed = n.committed)
    (hs : st'.snapshot = st.snapshot) (hl : st'.lastApplied = st.lastApplied)
    (hk : ∀ i e, q ≤ i → i < n.committed → log.get i = some e → st'.entries e.index = some e) :
    Durable c log base R n' st' q where
  represents := hr
  loads := by simpa only [hc,Loads,hs] using hd.loads
  first_le := hl ▸ hd.first_le
  le_applied := hl ▸ hd.le_applied
  applied_le := hl ▸ hc ▸ hd.applied_le
  committed_le := hc ▸ hd.committed_le
  kept := hc ▸ hk

theorem Running.mono {st' : Store} (h : Running c log base R n st q p k m)
    (hc : n.committed ≤ n'.committed) (hl : st'.lastApplied = st.lastApplied) :
    Running c log base R n' st' q p k m :=
  {h with
    state_le := h.state_le.trans hc
    appliedEnd := hl ▸ h.appliedEnd
    applied_le := hl ▸ h.applied_le
    next_le := h.next_le.trans hc
    unsaved := hl ▸ h.unsaved
    positioned := hl ▸ h.positioned
    captured := by
      intro x data hx
      obtain ⟨h₁,h₂,j,hj⟩ := h.captured x data hx
      exact ⟨h₁,hl ▸ h₂,j,hj.1,hj.2.1,hj.2.2.1,hj.2.2.2.trans hc⟩}

theorem inv_of_log {db : Db} {st' : Store} (hd : Durable c log base R n st q)
    (hp : ∀ p, n.process = some p → ∃ k m, Running c log base R n st q p k m)
    (hre : Represents c.platform.sha256 db st') (hs : st'.snapshot = st.snapshot)
    (hl : st'.lastApplied = st.lastApplied)
    (hk : ∀ i e, q ≤ i → i < n.committed → log.get i = some e → st'.entries e.index = some e) :
    Inv c log base R {n with db := db} := by
  refine ⟨st',q,hd.of_store hre rfl hs hl hk,fun p hpr => ?_⟩
  obtain ⟨k,m,hr⟩ := hp p hpr
  exact ⟨k,m,hr.mono le_rfl hl⟩

theorem insertAll_of_ne {ε : Type} {key : ε → U64} {m : U64 → Option ε} {es : List ε} {i : U64}
    (h : ∀ e ∈ es, key e ≠ i) : insertAll key m es i = m i := by
  induction es generalizing m with
  | nil => rfl
  | cons e es ih =>
    rw [insertAll,List.foldl_cons,← insertAll,ih fun e' he' => h e' (List.mem_cons_of_mem _ he')]
    exact Function.update_of_ne (h e List.mem_cons_self).symm _ _

theorem inv_process (hd : Durable c log base R n st q) (hr : Running c log base R n st q p k m) :
    Inv c log base R {n with process := some p} := by
  refine ⟨st,q,{hd with},?_⟩
  rintro _ ⟨⟩
  exact ⟨k,m,{hr with}⟩

theorem inv_append {entries : List Entry} (hn : Inv c log base R n)
    (he : ∀ e ∈ entries, n.committed ≤ e.logId.index.val) :
    Inv c log base R (n.write (appendEntries n.db (entries.map openraftToLogEntry))) := by
  obtain ⟨st,q,hd,hp⟩ := hn
  cases ha : appendEntries n.db (entries.map openraftToLogEntry) with
  | error e => exact ⟨st,q,hd,hp⟩
  | ok db =>
    refine inv_of_log hd hp (represents_appendEntries hd.represents ha) rfl rfl fun i e hq hi hg => ?_
    refine (insertAll_of_ne fun e' he' heq => ?_).trans (hd.kept i e hq hi hg)
    obtain ⟨entry,hm,rfl⟩ := List.mem_map.1 he'
    have hle := he entry hm
    have hid := index_of_get hg
    have hv : entry.logId.index.val = e.index.val := congrArg Fin.val heq
    omega

theorem inv_truncate {index : U64} (hn : Inv c log base R n) (hi : n.committed ≤ index.val) :
    Inv c log base R {n with db := deleteFrom n.db index} := by
  obtain ⟨st,q,hd,hp⟩ := hn
  refine inv_of_log hd hp (represents_deleteFrom hd.represents index) rfl rfl fun i e hq hlt hg => ?_
  have hid := index_of_get hg
  have hl' : e.index < index := Fin.lt_def.2 (by omega)
  simp only [Store.truncate,if_pos hl']
  exact hd.kept i e hq hlt hg

theorem inv_purge {logId : LogId} (hn : Inv c log base R n) (hc : coversPurge n.db logId.index) :
    Inv c log base R
      (n.write (deleteUpTo n.db ⟨logId.term,logId.nodeId,logId.index⟩)) := by
  obtain ⟨st,q,hd,hp⟩ := hn
  obtain ⟨db,hde⟩ : ∃ db, deleteUpTo n.db ⟨logId.term,logId.nodeId,logId.index⟩ = .ok db := ⟨_,rfl⟩
  have hq : logId.index.val < q := by
    obtain ⟨j,hl,_⟩ := hd.loads
    rw [coversPurge,hd.represents.snapshotMeta] at hc
    rw [Loads] at hl
    cases hs : st.snapshot with
    | none => simp [hs] at hc
    | some x =>
      simp only [hs,Option.map_some] at hc hl
      cases hi : x.1.lastApplied.lastAppliedIndex with
      | none => simp [hi] at hc
      | some i =>
        simp only [hi,Option.any_some,decide_eq_true_eq,Fin.le_def] at hc
        rw [hl.1,hi,count_some]
        omega
  rw [hde]
  refine inv_of_log hd hp (represents_deleteUpTo hd.represents hde) rfl rfl fun i e hqi hlt hg => ?_
  have hid := index_of_get hg
  have hl' : logId.index < e.index := Fin.lt_def.2 (by omega)
  simp only [Store.purge,if_pos hl']
  exact hd.kept i e hqi hlt hg

theorem inv_commit {e : LogEntry} (hn : Inv c log base R n) (he : log.get n.committed = some e)
    (hg : (getEntries n.db e.index (U64.saturatingAdd e.index 1)).toOption = some [e]) :
    Inv c log base R {n with committed := n.committed+1} := by
  obtain ⟨st,q,hd,hp⟩ := hn
  obtain ⟨l,hl,_,hm⟩ := getEntries_spec hd.represents.log e.index (U64.saturatingAdd e.index 1)
  rw [hl] at hg
  obtain rfl : l = [e] := Option.some.inj hg
  have hst : st.entries e.index = some e := ((hm e).1 (by simp)).2.2
  obtain ⟨j,hj,hqj,hfj,hjc⟩ := hd.loads
  refine ⟨st,q,⟨hd.represents,⟨j,hj,hqj,hfj,hjc.trans (Nat.le_succ _)⟩,hd.first_le,hd.le_applied,
    hd.applied_le.trans (Nat.le_succ _),lt_last_of_get he,fun i e' hq hi he' => ?_⟩,fun p hpr => ?_⟩
  · rcases Nat.lt_succ_iff_lt_or_eq.1 hi with hlt | rfl
    · exact hd.kept i e' hq hlt he'
    · cases he.symm.trans he'
      exact hst
  · obtain ⟨k,m,hr⟩ := hp p hpr
    exact ⟨k,m,hr.mono (Nat.le_succ _) rfl⟩

theorem inv_beginApply (hn : Inv c log base R n) (hpr : n.process = some p) (hb : p.batch = none)
    (hj : p.next+j ≤ n.committed) : Inv c log base R {n with process := some {p with
      next := p.next+j, batch := some ⟨log.slice p.next j,p.appliedEnd,none,none⟩}} := by
  obtain ⟨st,q,hd,hp⟩ := hn
  obtain ⟨k,m,hr⟩ := hp p hpr
  have hk := hr.idle hb
  exact inv_process (k := k) (m := m) hd {hr with
    le_next := hr.le_next.trans (Nat.le_add_right _ _)
    next_le := hj
    idle := by simp
    remaining := by
      rintro _ ⟨⟩
      simp only [hk,Nat.add_sub_cancel_left]
    fresh := by
      rintro _ ⟨⟩
      exact hr.appliedEnd.le.trans hr.applied_le
    highWater := by
      rintro _ e ⟨⟩ ⟨⟩
    unsaved := by
      rintro _ e x ⟨⟩ ⟨⟩}

theorem inv_applyNext {p' : Process} {b : Batch} (hR : Simulation c log base R)
    (hn : Inv c log base R n) (hpr : n.process = some p) (hb : p.batch = some b)
    (ha : p.applyNext b = some p') : Inv c log base R {n with process := some p'} := by
  obtain ⟨st,q,hd,hp⟩ := hn
  obtain ⟨k,m,hr⟩ := hp p hpr
  have hcl := hd.committed_le
  have hne := hr.next_le
  have hqf := hd.first_le.trans hr.applied_le
  have hsl := hr.state_le
  rw [Process.applyNext] at ha
  cases hre : b.remaining with
  | nil => simp [hre] at ha
  | cons e rest =>
    cases hu : b.unsaved with
    | some x => simp [hre,hu] at ha
    | none =>
      have hs := hr.remaining b hb
      rw [hre] at hs
      have hlt : k < p.next := by
        by_contra hge
        rw [Nat.sub_eq_zero_of_le (not_lt.1 hge)] at hs
        cases hs
      obtain ⟨e',he'⟩ := exists_get hqf (by omega : k < log.last)
      rw [show p.next-k = (p.next-(k+1))+1 by omega,slice_succ he'] at hs
      obtain ⟨rfl,hrs⟩ := List.cons.inj hs
      have hi := index_of_get he'
      have hfr := hr.fresh b hb
      have hdu : ¬ e.index < b.appliedEnd := by
        rw [Fin.lt_def]
        omega
      simp only [hre,hu,if_neg hdu,Option.some.injEq] at ha
      subst ha
      have hst := hR.applyLog_slice hr.state hqf hr.le_state (by omega) (by omega : k+1 ≤ log.last)
      rw [slice_succ he'] at hst
      exact inv_process (k := k+1) (m := max m (k+1)) hd {hr with
        state := hst
        le_state := le_max_right _ _
        state_le := by omega
        applied_le := hr.applied_le.trans (Nat.le_succ k)
        le_next := hlt
        idle := by simp
        remaining := by
          rintro _ ⟨⟩
          exact hrs
        fresh := by
          rintro _ ⟨⟩
          exact hfr.trans (Nat.le_succ k)
        highWater := by
          rintro _ x ⟨⟩ ⟨⟩
          exact hi.symm ▸ ⟨he',Nat.lt_succ_self k⟩
        unsaved := by
          rintro _ x y ⟨⟩ hx
          obtain rfl : x = e := by
            simp only at hx
            split at hx <;> simp_all
          exact hi.symm ▸ ⟨he',Nat.lt_succ_self k,hr.applied_le⟩}

theorem inv_advance {e : LogEntry} {db : Db} {st' : Store} {b' : Option Batch}
    (hd : Durable c log base R n st q) (hr : Running c log base R n st q p k m)
    (he : log.get e.index.val = some e) (hek : e.index.val < k)
    (hle : count st.lastApplied.lastAppliedIndex ≤ e.index.val)
    (hre : Represents c.platform.sha256 db st') (hs : st'.snapshot = st.snapshot)
    (hen : st'.entries = st.entries) (hl : st'.lastApplied = logIdToLastApplied e)
    (hn : b' = none → k = p.next)
    (hso : ∀ b, b' = some b → ∃ b₀, p.batch = some b₀ ∧ b = {b₀ with unsaved := none}) :
    Inv c log base R {n with
      db := db
      process := some {p with appliedEnd := U64.saturatingAdd e.index 1, batch := b'}} := by
  have hc : count st'.lastApplied.lastAppliedIndex = e.index.val+1 := by
    rw [hl]
    rfl
  have hq := hd.le_applied
  have hf := hd.first_le
  have hkm := hr.le_state
  have hmc := hr.state_le
  refine ⟨st',q,⟨hre,by simpa only [Loads,hs] using hd.loads,by omega,by omega,
    by simp only; omega,hd.committed_le,hen ▸ hd.kept⟩,fun p' hp' => ⟨k,m,?_⟩⟩
  cases hp'
  exact {hr with
    appliedEnd := hc ▸ saturatingAdd_of_get he
    applied_le := by omega
    idle := hn
    remaining := by
      intro b hb
      obtain ⟨b₀,hb₀,rfl⟩ := hso b hb
      exact hr.remaining b₀ hb₀
    fresh := by
      intro b hb
      obtain ⟨b₀,hb₀,rfl⟩ := hso b hb
      exact hr.fresh b₀ hb₀
    highWater := by
      intro b x hb hx
      obtain ⟨b₀,hb₀,rfl⟩ := hso b hb
      exact hr.highWater b₀ x hb₀ hx
    unsaved := by
      intro b x y hb hx
      obtain ⟨b₀,hb₀,rfl⟩ := hso b hb
      cases hx
    positioned := fun a x hx => (hr.positioned a x hx).imp id fun h => by omega
    captured := fun x data hx => (hr.captured x data hx).imp id (And.imp (fun h => by omega) id)}

theorem inv_persistMembership {b : Batch} (hn : Inv c log base R n) (hpr : n.process = some p)
    (hb : p.batch = some b) (hs : Recovery.persistMembership n p b = some n') :
    Inv c log base R n' := by
  obtain ⟨st,q,hd,hp⟩ := hn
  obtain ⟨k,m,hr⟩ := hp p hpr
  rw [Recovery.persistMembership] at hs
  cases hu : b.unsaved with
  | none => simp [hu] at hs
  | some x =>
    obtain ⟨e,mem⟩ := x
    obtain ⟨he,hek,hle⟩ := hr.unsaved b e mem hb hu
    simp only [hu] at hs
    split at hs
    · cases hsa : saveAppliedMembershipAndLastApplied n.db mem (logIdToLastApplied e) with
      | error err => simp [hsa] at hs
      | ok db =>
        simp only [hsa,Option.some.injEq] at hs
        subst hs
        refine inv_advance hd hr he hek hle (represents_saveApplied hd.represents hsa)
          rfl rfl rfl (by simp) ?_
        rintro _ ⟨⟩
        exact ⟨b,hb,rfl⟩
    · cases hs

theorem inv_finishBatch {b : Batch} (hn : Inv c log base R n) (hpr : n.process = some p)
    (hb : p.batch = some b) (hs : Recovery.finishBatch n p b = some n') : Inv c log base R n' := by
  obtain ⟨st,q,hd,hp⟩ := hn
  obtain ⟨k,m,hr⟩ := hp p hpr
  have hdo : b.remaining = [] → k = p.next := by
    intro hni
    have hsl := hr.remaining b hb
    have hcl := hd.committed_le
    have hnx := hr.next_le
    have hkn := hr.le_next
    by_contra hne
    obtain ⟨e,he⟩ := exists_get (hd.first_le.trans hr.applied_le) (by omega : k < log.last)
    rw [hni,show p.next-k = (p.next-(k+1))+1 by omega,slice_succ he] at hsl
    cases hsl
  have hi : k = p.next → Inv c log base R {n with process := some {p with batch := none}} :=
    fun hk => inv_process (k := k) (m := m) hd {hr with
      idle := fun _ => hk
      remaining := by simp
      fresh := by simp
      highWater := by simp
      unsaved := by simp}
  rw [Recovery.finishBatch] at hs
  cases hre : b.remaining with
  | cons e rest => simp [hre] at hs
  | nil =>
    cases hu : b.unsaved with
    | some x => simp [hre,hu] at hs
    | none =>
      cases hh : b.highWater with
      | none =>
        simp only [hre,hu,hh,Option.some.injEq] at hs
        subst hs
        exact hi (hdo hre)
      | some e =>
        obtain ⟨he,hek⟩ := hr.highWater b e hb hh
        simp only [hre,hu,hh] at hs
        split_ifs at hs with hlt
        · cases hs
          exact hi (hdo hre)
        · cases hsa : saveLastApplied n.db (logIdToLastApplied e) with
          | error err => simp [hsa] at hs
          | ok db =>
            simp only [hsa,Option.some.injEq] at hs
            subst hs
            have hle : count st.lastApplied.lastAppliedIndex ≤ e.index.val := by
              rw [Fin.le_def,saturatingAdd_of_get he,hr.appliedEnd] at hlt
              omega
            exact inv_advance hd hr he hek hle (represents_saveLastApplied hd.represents hsa)
              rfl rfl rfl (fun _ => hdo hre) (by simp)

theorem inv_readPosition {p' : Process} (hn : Inv c log base R n) (hpr : n.process = some p)
    (hs : p.readPosition n.db = some p') : Inv c log base R {n with process := some p'} := by
  obtain ⟨st,q,hd,hp⟩ := hn
  obtain ⟨k,m,hr⟩ := hp p hpr
  have hl : loadAppliedPosition n.db = .ok (st.lastApplied,st.appliedMembership) := by
    rw [loadAppliedPosition,hd.represents.lastApplied,hd.represents.appliedMembership]
    rfl
  rw [Process.readPosition,hl] at hs
  cases hb : p.builder with
  | positioned a x | captured x data => simp [hb] at hs
  | idle =>
    simp only [hb,Option.some.injEq] at hs
    subst hs
    exact inv_process (k := k) (m := m) hd {hr with
      positioned := by
        rintro a x ⟨⟩
        exact ⟨le_max_of_le_left hd.le_applied,le_rfl⟩
      captured := by simp}

theorem stateAtSnapshotPosition_of_count {position : Option U64}
    (h : count position ≤ count s.appliedIndex) : stateAtSnapshotPosition s position = .ok s := by
  cases position with
  | none => rfl
  | some i =>
    cases ha : s.appliedIndex with
    | none => simp [ha] at h
    | some a =>
      rw [ha,count_some,count_some] at h
      have hlt : ¬ a < i := not_lt.2 (Fin.le_def.2 (by omega))
      simp [stateAtSnapshotPosition,ha,hlt]

theorem inv_capture {p' : Process} (hR : Simulation c log base R) (hn : Inv c log base R n)
    (hpr : n.process = some p) (hs : p.capture c.platform = some p') :
    Inv c log base R {n with process := some p'} := by
  obtain ⟨st,q,hd,hp⟩ := hn
  obtain ⟨k,m,hr⟩ := hp p hpr
  have hmc := hr.state_le
  have hkm := hr.le_state
  have ha := hr.applied_le
  have hqf := hd.first_le.trans hr.applied_le
  rw [Process.capture] at hs
  cases hb : p.builder with
  | idle | captured x data => simp [hb] at hs
  | positioned a x =>
    obtain ⟨hqa,hal⟩ := hr.positioned a x hb
    simp only [hb] at hs
    cases hca : captureSnapshot c.platform p.state a x with
    | error e =>
      simp only [hca,Option.some.injEq] at hs
      subst hs
      exact inv_process (k := k) (m := m) hd {hr with positioned := by simp, captured := by simp}
    | ok y =>
      simp only [hca,Option.some.injEq] at hs
      subst hs
      have hy : y.1.lastApplied = a ∧ clusterState.encode p.state = .ok y.2 := by
        rw [captureSnapshot] at hca
        split at hca
        · cases hca
        · obtain ⟨data,hse,rfl⟩ := map_eq_ok.1 hca
          exact ⟨rfl,serialize_eq_ok hse⟩
      have hst : count a.lastAppliedIndex ≤ count p.state.appliedIndex := by
        rw [hR.applied _ _ hr.state]
        have hc := le_count_exactlyOnce hR.started (hqf.trans hkm) (hmc.trans hd.committed_le)
        omega
      exact inv_process (k := k) (m := m) hd {hr with
        positioned := by simp
        captured := by
          rintro _ _ ⟨⟩
          rw [hy.1]
          refine ⟨hqa,hal,m,?_,by omega,hqf.trans hkm,hmc⟩
          exact ⟨p.state,p.state,clusterState.fromBytes_encode hy.2,
            stateAtSnapshotPosition_of_count hst,hR.layered _ _ hr.state⟩}

theorem inv_saveBuilt (hn : Inv c log base R n) (hpr : n.process = some p)
    (hs : saveBuilt c.platform n p = some n') : Inv c log base R n' := by
  obtain ⟨st,q,hd,hp⟩ := hn
  obtain ⟨k,m,hr⟩ := hp p hpr
  rw [saveBuilt] at hs
  cases hb : p.builder with
  | idle | positioned a x => simp [hb] at hs
  | captured x data =>
    obtain ⟨hq,hle,j,hre,hj⟩ := hr.captured x data hb
    simp only [hb,Option.some.injEq] at hs
    subst hs
    have hid : ∀ st' q', st'.lastApplied = st.lastApplied →
        Running c log base R n st' q' {p with builder := .idle} k m := fun st' q' hl =>
      {hr with
        appliedEnd := hl ▸ hr.appliedEnd
        applied_le := hl ▸ hr.applied_le
        unsaved := hl ▸ hr.unsaved
        positioned := by simp
        captured := by simp}
    cases hsa : Storage.saveSnapshot c.platform.sha256 n.db x data with
    | error e => exact inv_process hd (hid st q rfl)
    | ok db =>
      refine ⟨{st with snapshot := some (x,data)},count x.lastApplied.lastAppliedIndex,{hd with
        represents := represents_writeSnapshot hd.represents hsa
        loads := ⟨j,⟨rfl,hre⟩,hj⟩
        le_applied := hle
        kept := fun i e hi hc he => hd.kept i e (hq.trans (max_le hi (first_le_of_get he))) hc he},?_⟩
      rintro _ ⟨⟩
      exact ⟨k,m,{hid {st with snapshot := some (x,data)} _ rfl with}⟩

theorem inv_syncVoterIds {ids : Finset NodeId} (hR : Simulation c log base R)
    (hn : Inv c log base R n) (hpr : n.process = some p) (hw : c.watchesMetrics) :
    Inv c log base R {n with process := some {p with state := {p.state with voterIds := ids}}} := by
  obtain ⟨st,q,hd,hp⟩ := hn
  obtain ⟨k,m,hr⟩ := hp p hpr
  exact inv_process (k := k) (m := m) hd {hr with state := hR.voterIds _ _ ids hw hr.state}

theorem inv_restart (hR : Simulation c log base R) (hn : Inv c log base R n)
    (hs : restartNode c n = some n') : Inv c log base R n' := by
  obtain ⟨st,q,hd,_⟩ := hn
  obtain ⟨s,m,hb,hst,hle,hmc⟩ := reboot_ok hR hd
  rw [restartNode,hb] at hs
  cases hpr : n.process with
  | some p => simp [hpr] at hs
  | none =>
    simp only [hpr,hd.represents.lastApplied,Option.some.injEq] at hs
    subst hs
    have he : (appliedEnd st.lastApplied).val = count st.lastApplied.lastAppliedIndex :=
      val_elim_saturatingAdd log (hd.applied_le.trans hd.committed_le)
    exact inv_process (k := count st.lastApplied.lastAppliedIndex) (m := m) hd {
      state := hst
      le_state := hle
      state_le := hmc
      appliedEnd := he
      applied_le := le_rfl
      le_next := he.ge
      next_le := he.le.trans hd.applied_le
      idle := fun _ => he.symm
      remaining := by simp
      fresh := by simp
      highWater := by simp
      unsaved := by simp
      positioned := by simp
      captured := by simp}

theorem inv_step {l : Step} (hR : Simulation c log base R) (hn : Inv c log base R n)
    (hs : step c log n l = some n') : Inv c log base R n' := by
  cases l <;> simp only [step,Option.bind_eq_some_iff,Option.map_eq_some_iff,Option.ite_none_right_eq_some,
    Option.some.injEq] at hs
  case append entries =>
    obtain ⟨⟨_,he⟩,rfl⟩ := hs
    exact inv_append hn he
  case truncate index =>
    obtain ⟨⟨_,hi⟩,rfl⟩ := hs
    exact inv_truncate hn hi
  case purge logId =>
    obtain ⟨⟨_,hc⟩,rfl⟩ := hs
    exact inv_purge hn hc
  case commit =>
    obtain ⟨e,he,⟨_,hg⟩,rfl⟩ := hs
    exact inv_commit hn he hg
  case beginApply j =>
    obtain ⟨p,hp,⟨hb,hj⟩,rfl⟩ := hs
    exact inv_beginApply hn hp (Option.isNone_iff_eq_none.1 hb) hj
  case applyNext =>
    obtain ⟨p,hp,b,hb,p',ha,rfl⟩ := hs
    exact inv_applyNext hR hn hp hb ha
  case persistMembership =>
    obtain ⟨p,hp,b,hb,hs⟩ := hs
    exact inv_persistMembership hn hp hb hs
  case finishBatch =>
    obtain ⟨p,hp,b,hb,hs⟩ := hs
    exact inv_finishBatch hn hp hb hs
  case readPosition =>
    obtain ⟨p,hp,p',ha,rfl⟩ := hs
    exact inv_readPosition hn hp ha
  case capture =>
    obtain ⟨p,hp,p',ha,rfl⟩ := hs
    exact inv_capture hR hn hp ha
  case saveSnapshot =>
    obtain ⟨p,hp,hs⟩ := hs
    exact inv_saveBuilt hn hp hs
  case syncVoterIds ids =>
    obtain ⟨p,hp,hw,rfl⟩ := hs
    exact inv_syncVoterIds hR hn hp hw
  case crash =>
    obtain ⟨p,_,rfl⟩ := hs
    obtain ⟨st,q,hd,_⟩ := hn
    exact ⟨st,q,{hd with},by simp⟩
  case restart => exact inv_restart hR hn hs

theorem inv_run {steps : List Step} (hR : Simulation c log base R) (hn : Inv c log base R n)
    (hr : run (step c log) n steps = some n') : Inv c log base R n' :=
  run_invariant (fun _ _ _ hi hs => inv_step hR hi hs) hn hr

end Proof

end ExactlyOnce
end PgBattery
