import PgBattery.Restart

/-! A snapshot received from the leader is decoded in either layout and stored as it came, while a
restart decodes the current layout only. -/
namespace PgBattery
namespace InstalledSnapshot
open StateMachine LogApply Layout Postcard Storage AbstractStore LogStore Snapshot Recovery
open ExactlyOnce Restart TransitionSystem
open ReplicaAgreement (peer)

def position (r : ReceivedSnapshot) : Option U64 := r.lastLogId.map LogId.index

def Uncloned (position : Option U64) : Builder → Prop
  | .idle => True
  | .positioned lastApplied _ => count lastApplied.lastAppliedIndex ≤ count position
  | .captured .. => False

def installedStore (st : Store) (r : ReceivedSnapshot) : Store :=
  {st with
    snapshot := some (r.record,r.data)
    appliedMembership := some r.record.membership
    lastApplied := r.record.lastApplied}

section Install
variable {π : Platform} {db db' : Db} {st : Store} {r : ReceivedSnapshot} {s : ClusterState}
variable {appliedEnd : U64} {configured : List PeerConfig}

theorem installSnapshot_ok (h : Represents π.sha256 db st)
    (hi : installSnapshot π db r = .ok (db',s,appliedEnd)) :
    ∃ s₀, decodeSnapshot r.data = .ok s₀ ∧
      stateAtSnapshotPosition s₀ (position r) = .ok s ∧
      Represents π.sha256 db' (installedStore st r) ∧
      appliedEnd = Snapshot.appliedEnd r.record.lastApplied := by
  obtain ⟨s₀,hde,hi⟩ := bind_eq_ok.1 hi
  obtain ⟨s₁,hp,hi⟩ := bind_eq_ok.1 hi
  obtain ⟨db₁,hs,hi⟩ := bind_eq_ok.1 hi
  cases hi
  refine ⟨s₀,?_,hp,represents_saveInstalledSnapshot h hs,rfl⟩
  cases hd : decodeSnapshot r.data with
  | error e => simp [hd,Except.mapError] at hde
  | ok s' => simpa [hd,Except.mapError] using hde

theorem decodeSnapshot_of_current {data : Bytes} {s s₀ : ClusterState}
    (h : clusterState.fromBytes data = .ok s₀) (hd : decodeSnapshot data = .ok s) : s₀ = s := by
  rw [decodeSnapshot,h] at hd
  exact Except.ok.inj hd

theorem count_position_le {s₀ : ClusterState} {position : Option U64}
    (h : stateAtSnapshotPosition s₀ position = .ok s) : count position ≤ count s.appliedIndex := by
  cases position with
  | none => exact Nat.zero_le _
  | some i =>
    rw [stateAtSnapshotPosition] at h
    cases ha : s₀.appliedIndex with
    | none =>
      simp only [ha,Except.ok.injEq] at h
      subst h
      exact le_rfl
    | some a =>
      simp only [ha] at h
      split at h
      · cases h
      · rename_i hlt
        cases h
        rw [Fin.lt_def] at hlt
        rw [ha,count_some,count_some]
        omega

theorem loadSnapshotState_installed (h : Represents π.sha256 db (installedStore st r)) :
    loadSnapshotState π db = (do
      let s ← (clusterState.fromBytes r.data).mapError .serialization
      let s ← stateAtSnapshotPosition s (position r)
      .ok (s,(position r).elim 0 (U64.saturatingAdd · 1))) := by
  rw [loadSnapshotState,h.snapshotMeta,h.snapshotData]
  rfl

theorem replayAppliedEntries_installed (h : Represents π.sha256 db (installedStore st r)) :
    replayAppliedEntries db s ((position r).elim 0 (U64.saturatingAdd · 1)) =
      .ok s := by
  rw [replayAppliedEntries,h.lastApplied]
  have hl : (installedStore st r).lastApplied.lastAppliedIndex = position r := rfl
  cases hp : position r with
  | none => simp [bind,Except.bind,hl,hp]
  | some last =>
    obtain ⟨l,hg,_,hm⟩ := getEntries_spec h.log (U64.saturatingAdd last 1) (U64.saturatingAdd last 1)
    have hn : l = [] := by
      apply List.eq_nil_iff_forall_not_mem.2
      intro e he
      have hr := (hm e).1 he
      exact absurd hr.1 (not_le.2 hr.2.1)
    subst hn
    by_cases hlt : last < U64.saturatingAdd last 1
    · simp [bind,Except.bind,hl,hp,hlt]
    · simp [bind,Except.bind,hl,hp,hlt,hg,applyLog]

theorem reboot_installed (h : Represents π.sha256 db (installedStore st r)) {s₀ : ClusterState}
    (hd : clusterState.fromBytes r.data = .ok s₀)
    (hp : stateAtSnapshotPosition s₀ (position r) = .ok s) :
    reboot π configured db = .ok (db,layerConfigured s configured) := by
  rw [reboot,ensureSchemaVersion_current h]
  simp [bind,Except.bind,restore,loadSnapshotState_installed h,hd,Except.mapError,hp,
    replayAppliedEntries_installed h]

theorem current_of_reboot (h : Represents π.sha256 db (installedStore st r)) {x : Db × ClusterState}
    (hb : reboot π configured db = .ok x) : ∃ s₀, clusterState.fromBytes r.data = .ok s₀ := by
  cases hd : clusterState.fromBytes r.data with
  | ok s₀ => exact ⟨s₀,rfl⟩
  | error e =>
    rw [reboot,ensureSchemaVersion_current h] at hb
    simp [bind,Except.bind,restore,loadSnapshotState_installed h,hd,Except.mapError] at hb

end Install

section Later
variable {π : Platform} {db : Db} {st : Store} {r : ReceivedSnapshot} {s s₀ : ClusterState}
variable {log : CommittedLog} {b : Builder} {configured : List PeerConfig}

theorem inv_installed (watches : Bool) (h : Represents π.sha256 db (installedStore st r))
    (hd : clusterState.fromBytes r.data = .ok s₀)
    (hpo : stateAtSnapshotPosition s₀ (position r) = .ok s) (hb : Uncloned (position r) b)
    (hf : log.first = count (position r)) :
    Inv ⟨π,configured,watches⟩ log s (Overlaid watches configured)
      ⟨db,log.first,some ⟨s,appliedEnd r.record.lastApplied,
        (appliedEnd r.record.lastApplied).val,none,b⟩⟩ := by
  have hba : exactlyOnce s log log.first = s := by
    simp [exactlyOnce,CommittedLog.slice,applyLog]
  have hl : log.first ≤ log.last := Nat.le_add_right _ _
  have he : (appliedEnd r.record.lastApplied).val = log.first := by
    rw [hf]
    exact val_elim_saturatingAdd log (hf ▸ hl)
  have hat : Overlaid watches configured (exactlyOnce s log log.first) s := by
    rw [hba]
    exact Overlaid.refl watches configured s
  have hco : count (installedStore st r).lastApplied.lastAppliedIndex = log.first := hf.symm
  refine ⟨installedStore st r,log.first,?_,fun p hp => ⟨log.first,log.first,?_⟩⟩
  · exact {
      represents := h
      loads := ⟨log.first,⟨hf,s₀,s,hd,hpo,hat.layered⟩,le_rfl,le_rfl,le_rfl⟩
      first_le := hco.ge
      le_applied := hco.ge
      applied_le := hco.le
      committed_le := hl
      kept := fun i e hi hc => absurd hi (not_le.2 hc)}
  · cases hp
    exact {
      state := hat
      le_state := le_rfl
      state_le := le_rfl
      appliedEnd := he.trans hco.symm
      applied_le := hco.le
      le_next := he.ge
      next_le := he.le
      idle := fun _ => he.symm
      remaining := by simp
      fresh := by simp
      highWater := by simp
      unsaved := by simp
      positioned := by
        rintro a x rfl
        exact ⟨le_max_right _ _,hco ▸ hf ▸ hb⟩
      captured := by
        rintro x data rfl
        exact hb.elim}

end Later

/-- An installed snapshot survives every later restart exactly when its bytes are in the current
layout: schema-0 bytes are accepted, kept as they came, and refused at the next start. The restart
layers the configured nodes over the state, about which the later entries have to be quiet. -/
theorem installed_survives_restart_iff (π : Platform) (configured : List PeerConfig) (db : Db)
    (st : Store) (h : Represents π.sha256 db st) (r : ReceivedSnapshot) (db' : Db) (s : ClusterState)
    (installedEnd : U64) (hi : installSnapshot π db r = .ok (db',s,installedEnd)) (b : Builder)
    (hb : Uncloned (position r) b) :
    (reboot π configured db' = .ok (db',layerConfigured s configured) ∧
      ∀ watches (log : CommittedLog) steps n, log.first = count (position r) →
        ConfiguredQuiet configured s log →
        run (step ⟨π,configured,watches⟩ log)
          ⟨db',log.first,some ⟨s,installedEnd,installedEnd.val,none,b⟩⟩ steps = some n →
        ∃ s' applied m, reboot π configured n.db = .ok (n.db,s') ∧
          loadLastApplied n.db = .ok applied ∧ count applied.lastAppliedIndex ≤ m ∧
          m ≤ n.committed ∧ Overlaid watches configured (exactlyOnce s log m) s') ↔
      ∃ s₀, clusterState.fromBytes r.data = .ok s₀ := by
  obtain ⟨s₁,hd₁,hp,hr,rfl⟩ := installSnapshot_ok h hi
  constructor
  · rintro ⟨hbo,_⟩
    exact current_of_reboot hr hbo
  · rintro ⟨s₀,hde⟩
    obtain rfl := decodeSnapshot_of_current hde hd₁
    refine ⟨reboot_installed hr hde hp,fun watches log steps n hf hq hru => ?_⟩
    have hR := simulation_overlaid π watches (hf.trans_le (count_position_le hp)) hq
    obtain ⟨st',q,hd,_⟩ := inv_run hR (inv_installed watches hr hde hp hb hf) hru
    obtain ⟨s',m,hbo,hs,hle,hm⟩ := reboot_ok hR hd
    exact ⟨s',st'.lastApplied,m,hbo,hd.represents.lastApplied,hle,hm,hs⟩

def received (data : Bytes) : ReceivedSnapshot :=
  ⟨some ⟨1,1,0⟩,some ⟨1,1,0⟩,.new [[1,2,3]] ∅,data⟩

theorem received_record (data : Bytes) : (received data).record =
    ⟨⟨some 1,some 0,1⟩,⟨some 0,some 1,1,[[1,2,3]],[(1,""),(2,""),(3,"")]⟩⟩ := by
  have hs : ([1,2,3] : List NodeId).toFinset.sort (· ≤ ·) = [1,2,3] :=
    (List.toFinset_sort _ (by decide)).2 (by decide)
  have hn : (JointMembership.new [[1,2,3]] ∅).nodes.toList =
      [(1,""),(2,""),(3,"")] := by decide
  have hc : (JointMembership.new [[1,2,3]] ∅).configs = [([1,2,3] : List NodeId).toFinset] := rfl
  simp only [ReceivedSnapshot.record,received,membershipToLocal,hn,hc,List.map,hs]
  rfl

theorem install_received (db : Db) (data : Bytes) (s₀ s : ClusterState)
    (hd : decodeSnapshot data = .ok s₀) (hp : stateAtSnapshotPosition s₀ (some 0) = .ok s) :
    ∃ db', installSnapshot ⟨id,fun _ => ""⟩ db (received data) = .ok (db',s,1) := by
  have hd' : decodeSnapshot (received data).data = .ok s₀ := hd
  have hp' : stateAtSnapshotPosition s₀ ((received data).lastLogId.map LogId.index) = .ok s := hp
  rw [installSnapshot,hd',received_record]
  simp only [bind,Except.bind,Except.mapError,hp']
  exact ⟨_,rfl⟩

theorem installed_survives_restart_current :
    ∃ db db' s, ensureSchemaVersion id Db.fresh = .ok db ∧
      installSnapshot ⟨id,fun _ => ""⟩ db (received (List.replicate 22 0)) = .ok (db',s,1) ∧
      reboot ⟨id,fun _ => ""⟩ [peer 1,peer 2] db' = .ok (db',layerConfigured s [peer 1,peer 2]) := by
  obtain ⟨db,ho,hr⟩ := represents_fresh id
  have hd : clusterState.fromBytes (List.replicate 22 0) = .ok .new := by decide
  obtain ⟨db',hi⟩ := install_received db (List.replicate 22 0) .new
    {ClusterState.new with appliedIndex := some 0} (by decide) rfl
  have hs := (installed_survives_restart_iff ⟨id,fun _ => ""⟩ [peer 1,peer 2] db .empty hr _ db' _ 1
    hi .idle trivial).2 ⟨_,hd⟩
  exact ⟨db,db',_,ho,hi,hs.1⟩

/-- The initial state in the schema-0 layout is six zero bytes, in the current one twenty-two. -/
theorem schema0_install_refused_at_restart :
    ∃ db db' s e, ensureSchemaVersion id Db.fresh = .ok db ∧ Represents id db .empty ∧
      installSnapshot ⟨id,fun _ => ""⟩ db (received [0,0,0,0,0,0]) = .ok (db',s,1) ∧
      reboot ⟨id,fun _ => ""⟩ [peer 1,peer 2] db' = .error e := by
  obtain ⟨db,ho,hr⟩ := represents_fresh id
  have hold : clusterState.fromBytes [0,0,0,0,0,0] = .error .deserializeUnexpectedEnd := by decide
  obtain ⟨db',hi⟩ := install_received db [0,0,0,0,0,0] .new
    {ClusterState.new with appliedIndex := some 0} (by decide) rfl
  obtain ⟨_,_,_,hr',_⟩ := installSnapshot_ok hr hi
  cases hb : reboot ⟨id,fun _ => ""⟩ [peer 1,peer 2] db' with
  | error e => exact ⟨db,db',_,e,ho,hr,hi,hb⟩
  | ok x =>
    obtain ⟨s₀,hs₀⟩ := current_of_reboot hr' hb
    exact absurd (hold.symm.trans hs₀) (by simp)

end InstalledSnapshot
end PgBattery
