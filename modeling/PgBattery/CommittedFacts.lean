import PgBattery.Commands

/-! What the applied state keeps along every sequence of commands: nothing moves by a refused command,
committed facts only grow, and a standby stopped for an upgrade stays on the record until it is let go. -/
namespace PgBattery
namespace CommittedFacts
open StateMachine ClusterState TransitionSystem

variable {s : ClusterState} {cmd : ClusterCommand}

section Refusals

theorem applyAdmitted_refused (h : (s.applyAdmitted cmd).2 = .outOfOrder) :
    (s.applyAdmitted cmd).1 = s := by
  have hu : ∀ cmd, (s.pgUpgrade.apply cmd).2 = .outOfOrder → (s.applyUpgrade cmd).1 = s := by
    intro cmd h
    rw [applyUpgrade,PgUpgradeState.apply_refused h]
  have hc : ∀ cmd, (s.cutover.applyCutover cmd).2 = .outOfOrder → (s.applyCutover cmd).1 = s := by
    intro cmd h
    rw [ClusterState.applyCutover,CutoverAuthorityState.applyCutover_refused h]
  cases cmd with
  | setFeatureLevel level =>
    rw [applyAdmitted,raiseFeatureLevel] at h ⊢
    split_ifs at h ⊢
    rfl
  | primaryOpened term =>
    rw [applyAdmitted] at h ⊢
    split_ifs at h ⊢
    rfl
  | setLineage systemIdentifier =>
    rw [applyAdmitted] at h ⊢
    split_ifs at h ⊢
    rfl
  | pgUpgradeServe lineage =>
    cases lineage with
    | none => cases h
    | some swapped =>
      rw [applyAdmitted,serveUpgrade] at h
      split_ifs at h <;> cases h
  | pgUpgradeFreeze standbys => exact hu _ h
  | pgUpgradeRejoined id => exact hu _ h
  | pgUpgradeAbort => exact hu _ h
  | cutoverArmed target own => exact hc _ h
  | cutoverSealing roles => exact hc _ h
  | cutoverSeal lsn => exact hc _ h
  | cutoverDrainObserved => exact hc _ h
  | cutoverTransfer target addr forced => exact hc _ h
  | cutoverAbortUnseal own => exact hc _ h
  | cutoverAuthorityReceived epoch donor own => exact hc _ h
  | nameCluster own awaits => exact hc _ h
  | _ => cases h

theorem apply_refused (h : (s.apply cmd).2 = .outOfOrder) : (s.apply cmd).1 = s := by
  rw [apply] at h ⊢
  split_ifs at h ⊢ with ha
  · exact applyAdmitted_refused h
  · rfl

theorem outcome_withIndex (s : ClusterState) (index : Option U64) (cmd : ClusterCommand) :
    ({s with appliedIndex := index}.apply cmd).2 = (s.apply cmd).2 := by
  have ha : {s with appliedIndex := index}.admits cmd = s.admits cmd := by cases cmd <;> rfl
  rw [apply,apply,ha]
  split_ifs with h
  · cases cmd with
    | setFeatureLevel level =>
      simp only [applyAdmitted,raiseFeatureLevel]
      split_ifs <;> rfl
    | primaryOpened term =>
      simp only [applyAdmitted]
      split_ifs <;> rfl
    | setLineage systemIdentifier =>
      simp only [applyAdmitted]
      split_ifs <;> rfl
    | pgUpgradeServe lineage =>
      cases lineage with
      | none => rfl
      | some swapped =>
        simp only [applyAdmitted,serveUpgrade]
        split_ifs <;> rfl
    | _ => rfl
  · rfl

theorem applyEntry_refused (h : (s.apply cmd).2 = .outOfOrder) (index : U64) :
    (s.applyEntry index cmd).1 = s.noteApplied index := by
  rw [applyEntry,noteApplied]
  split_ifs with hre
  · rfl
  · have hr : ({s with appliedIndex := some index}.apply cmd).2 = .outOfOrder :=
      (outcome_withIndex s (some index) cmd).trans h
    exact apply_refused hr

theorem refused_of_level (hl : s.featureLevel < cmd.requiredFeatureLevel)
    (hc : ∀ level, cmd ≠ .setFeatureLevel level) : (s.apply cmd).2 = .outOfOrder := by
  have ha : s.admits cmd = false := by
    cases cmd with
    | setFeatureLevel level => exact absurd rfl (hc level)
    | _ => exact decide_eq_false hl.not_ge
  rw [apply,ha]
  rfl

/-- A refused command changes nothing but the index, and every command above the committed level is
refused, except the one that raises it. -/
theorem refused_changes_nothing (s : ClusterState) (cmd : ClusterCommand) (index : U64) :
    ((s.apply cmd).2 = .outOfOrder →
      (s.apply cmd).1 = s ∧ (s.applyEntry index cmd).1 = s.noteApplied index) ∧
    (s.featureLevel < cmd.requiredFeatureLevel → (∀ level, cmd ≠ .setFeatureLevel level) →
      (s.apply cmd).1 = s ∧ (s.applyEntry index cmd).1 = s.noteApplied index) := by
  have hr : (s.apply cmd).2 = .outOfOrder →
      (s.apply cmd).1 = s ∧ (s.applyEntry index cmd).1 = s.noteApplied index :=
    fun h => ⟨apply_refused h,applyEntry_refused h index⟩
  exact ⟨hr,fun hl hc => hr (refused_of_level hl hc)⟩

theorem refused_changes_nothing_armed :
    (ClusterState.applyEntry {} 7 (.cutoverArmed "green" "blue")).1 = {appliedIndex := some 7} :=
  ((refused_changes_nothing {} (.cutoverArmed "green" "blue") 7).2 (by decide) (fun _ => nofun)).2

/-- The level itself is raised from below. -/
theorem level_raised_from_below : ∃ (s : ClusterState) (cmd : ClusterCommand),
    s.featureLevel < cmd.requiredFeatureLevel ∧ (s.apply cmd).1.featureLevel ≠ s.featureLevel :=
  ⟨{},.setFeatureLevel 1,by decide,by decide⟩

end Refusals

section Growth

def applyAll (s : ClusterState) (cmds : List ClusterCommand) : ClusterState :=
  cmds.foldl (fun s cmd => (s.apply cmd).1) s

structure Continues (s t : ClusterState) : Prop where
  featureLevel : s.featureLevel ≤ t.featureLevel
  primaryTerm : ∀ a, s.primaryTerm = some a → ∃ b, t.primaryTerm = some b ∧ a ≤ b
  clusterId : ∀ a, s.cutover.clusterId = some a → t.cutover.clusterId = some a

theorem Continues.refl (s : ClusterState) : Continues s s :=
  ⟨le_rfl,fun a h => ⟨a,h,le_rfl⟩,fun _ h => h⟩

theorem Continues.trans {t u : ClusterState} (hst : Continues s t) (htu : Continues t u) :
    Continues s u := by
  refine ⟨hst.featureLevel.trans htu.featureLevel,fun a ha => ?_,fun a ha => ?_⟩
  · obtain ⟨b,hb,hab⟩ := hst.primaryTerm a ha
    obtain ⟨c,hc,hbc⟩ := htu.primaryTerm b hb
    exact ⟨c,hc,hab.trans hbc⟩
  · exact htu.clusterId a (hst.clusterId a ha)

theorem clusterId_applyCutover {c : CutoverAuthorityState} {name : String} (h : c.clusterId = some name)
    (cmd : ClusterCommand) : (c.applyCutover cmd).1.clusterId = some name := by
  rcases c.applyCutover_cases cmd with heq | ⟨c',heq,hm⟩
  · rw [heq]
    exact h
  · rw [heq]
    cases hm with
    | @named own awaits hn =>
      rw [h,Option.all_some] at hn
      exact congrArg some (of_decide_eq_true hn).symm
    | _ => exact h

theorem levelAfter_ge (s : ClusterState) (cmd : ClusterCommand) : s.featureLevel ≤ s.levelAfter cmd := by
  cases cmd with
  | setFeatureLevel level => exact le_max_left _ _
  | _ => exact le_rfl

theorem primaryTermAfter_ge {a : U64} (h : s.primaryTerm = some a) (cmd : ClusterCommand) :
    ∃ b, s.primaryTermAfter cmd = some b ∧ a ≤ b := by
  cases cmd with
  | primaryOpened term =>
    refine ⟨max term a,?_,le_max_right term a⟩
    rw [primaryTermAfter,h,Option.elim_some]
  | _ => exact ⟨a,h,le_rfl⟩

theorem continues_apply (s : ClusterState) (cmd : ClusterCommand) : Continues s (s.apply cmd).1 := by
  rcases s.apply_cases cmd with heq | heq
  · rw [heq]
    exact .refl s
  · rw [heq]
    exact ⟨levelAfter_ge s cmd,fun a ha => primaryTermAfter_ge ha cmd,
      fun a ha => clusterId_applyCutover ha cmd⟩

theorem continues_applyAll (s : ClusterState) (cmds : List ClusterCommand) :
    Continues s (applyAll s cmds) := by
  induction cmds generalizing s with
  | nil => exact .refl s
  | cons cmd cmds ih => exact (continues_apply s cmd).trans (ih (s.apply cmd).1)

theorem lineage_apply (hs : s.lineage.isSome) (hm : (s.apply cmd).1.lineage ≠ s.lineage) :
    s.pgUpgrade.frozen ∧ s.applies cmd ∧
      ∃ swapped, cmd = .pgUpgradeServe (some swapped) := by
  obtain ⟨lineage,hl⟩ := Option.isSome_iff_exists.1 hs
  by_cases ha : s.admits cmd
  · rw [apply_fst,if_pos ha,after] at hm
    cases cmd with
    | setLineage systemIdentifier =>
      refine absurd ?_ hm
      change some (s.lineage.getD systemIdentifier) = s.lineage
      rw [hl,Option.getD_some]
    | pgUpgradeServe carried =>
      cases carried with
      | none => exact absurd rfl hm
      | some swapped =>
        by_cases hf : s.pgUpgrade.frozen
        · refine ⟨hf,?_,swapped,rfl⟩
          rw [applies,apply,if_pos ha,applyAdmitted,serveUpgrade,if_pos hf]
          rfl
        · exact absurd (if_neg hf) hm
    | _ => exact absurd rfl hm
  · rw [apply_fst,if_neg ha] at hm
    exact absurd rfl hm

end Growth

section Voters

def Ascending (ids : List NodeId) : Prop := ids.Pairwise (· < ·)

variable {ids : List NodeId}

theorem ascending_insertSorted (h : Ascending ids) (id : NodeId) :
    Ascending (insertSorted ids id) := by
  rw [insertSorted]
  split_ifs with hm
  · exact h
  · have hle : (ids.orderedInsert (· ≤ ·) id).Pairwise (· ≤ ·) :=
      List.Pairwise.orderedInsert id ids (h.imp le_of_lt)
    have hn : (ids.orderedInsert (· ≤ ·) id).Nodup := by
      rw [(List.perm_orderedInsert (· ≤ ·) id ids).nodup_iff]
      exact List.nodup_cons.2 ⟨hm,h.imp ne_of_lt⟩
    exact hle.imp₂ (fun _ _ hle hne => lt_of_le_of_ne hle hne) hn

/-- What `slice::binary_search` is documented to answer on an ascending slice: where the value is, or
where it can be inserted. -/
structure BinarySearch where
  search : List NodeId → NodeId → Except ℕ ℕ
  found : ∀ ids id i, Ascending ids → search ids id = .ok i → id ∈ ids
  missing : ∀ ids id i, Ascending ids → search ids id = .error i →
    (∀ x ∈ ids.take i, x < id) ∧ ∀ x ∈ ids.drop i, id < x

/-- `IntendVoter` as it is written: the value is inserted where the search misses it. -/
def BinarySearch.insertVoter (b : BinarySearch) (ids : List NodeId) (id : NodeId) : List NodeId :=
  match b.search ids id with
  | .ok _ => ids
  | .error i => ids.take i++id::ids.drop i

theorem insertVoter_eq_insertSorted (b : BinarySearch) (h : Ascending ids) (id : NodeId) :
    b.insertVoter ids id = insertSorted ids id := by
  cases hs : b.search ids id with
  | ok i =>
    have hm := b.found ids id i h hs
    rw [BinarySearch.insertVoter,hs,insertSorted,if_pos hm]
  | error i =>
    obtain ⟨hb,ha⟩ := b.missing ids id i h hs
    have hm : id ∉ ids := by
      rw [← List.take_append_drop i ids,List.mem_append]
      rintro (hm | hm)
      · exact lt_irrefl id (hb id hm)
      · exact lt_irrefl id (ha id hm)
    have ht : ∀ x ∈ ids.take i, decide ¬id ≤ x := fun x hx => by simpa using hb x hx
    -- the search stops where the ordered insertion does
    have hst : (ids.drop i).takeWhile (fun x => decide ¬id ≤ x) = [] ∧
        (ids.drop i).dropWhile (fun x => decide ¬id ≤ x) = ids.drop i := by
      cases hr : ids.drop i with
      | nil => exact ⟨rfl,rfl⟩
      | cons x rest =>
        have hx : id ≤ x := (ha x (hr ▸ List.mem_cons_self)).le
        simp [hx]
    rw [BinarySearch.insertVoter,hs,insertSorted,if_neg hm,List.orderedInsert_eq_take_drop]
    conv_rhs => rw [← List.take_append_drop i ids]
    rw [List.takeWhile_append_of_pos ht,List.dropWhile_append_of_pos ht,hst.1,hst.2,
      List.append_nil]

theorem voterIntent_apply (s : ClusterState) (cmd : ClusterCommand) :
    (s.apply cmd).1.voterIntent = s.voterIntent ∨ (s.apply cmd).1.voterIntent = s.intentAfter cmd := by
  rcases s.apply_cases cmd with heq | heq
  · exact .inl (by rw [heq])
  · exact .inr (by rw [heq,after])

theorem ascending_apply (h : Ascending s.voterIntent) (cmd : ClusterCommand) :
    Ascending (s.apply cmd).1.voterIntent := by
  rcases voterIntent_apply s cmd with heq | heq
  · rw [heq]
    exact h
  · rw [heq]
    cases cmd with
    | removeNode id => exact h.filter _
    | intendVoter id => exact ascending_insertSorted h id
    | _ => exact h

theorem ascending_applyAll (h : Ascending s.voterIntent) (cmds : List ClusterCommand) :
    Ascending (applyAll s cmds).voterIntent := by
  induction cmds generalizing s with
  | nil => exact h
  | cons cmd cmds ih => exact ih (ascending_apply h cmd)

theorem notMem_voterIntent_apply {id : NodeId} (h : id ∉ s.voterIntent) (hc : cmd ≠ .intendVoter id)
    : id ∉ (s.apply cmd).1.voterIntent := by
  rcases voterIntent_apply s cmd with heq | heq
  · rw [heq]
    exact h
  · rw [heq]
    cases cmd with
    | removeNode other => exact fun hm => h (List.mem_filter.1 hm).1
    | intendVoter other =>
      have ho : id ≠ other := fun heq => hc (heq ▸ rfl)
      rw [intentAfter,insertSorted]
      split_ifs
      · exact h
      · rw [List.mem_orderedInsert]
        exact fun hm => hm.elim ho h
    | _ => exact h

theorem notMem_voterIntent_applyAll {id : NodeId} (h : id ∉ s.voterIntent)
    {cmds : List ClusterCommand} (hcm : ∀ cmd ∈ cmds, cmd ≠ .intendVoter id) :
    id ∉ (applyAll s cmds).voterIntent := by
  induction cmds generalizing s with
  | nil => exact h
  | cons cmd cmds ih =>
    have hr : ∀ cmd ∈ cmds, cmd ≠ .intendVoter id :=
      fun c hc => hcm c (List.mem_cons_of_mem cmd hc)
    exact ih (notMem_voterIntent_apply h (hcm cmd List.mem_cons_self)) hr

theorem notMem_voterIntent_removeNode (s : ClusterState) (id : NodeId) :
    id ∉ (s.apply (.removeNode id)).1.voterIntent := by
  have ha : s.admits (.removeNode id) := decide_eq_true (Fin.zero_le s.featureLevel)
  rw [apply_fst,if_pos ha]
  exact fun hm => absurd (List.mem_filter.1 hm).2 (by simp)

/-- Committed facts along every sequence of commands from the start: the level, the primary's term and
the cluster's name only grow, the lineage moves only out of a frozen upgrade, and the voters to be are in
the order their binary search relies on, without the removed ones. -/
theorem committed_facts (b : BinarySearch) (cmds later : List ClusterCommand) :
    Continues (applyAll {} cmds) (applyAll (applyAll {} cmds) later) ∧
    (∀ cmd, (applyAll {} cmds).lineage.isSome = true →
      ((applyAll {} cmds).apply cmd).1.lineage ≠ (applyAll {} cmds).lineage →
      (applyAll {} cmds).pgUpgrade.frozen = true ∧ (applyAll {} cmds).applies cmd = true ∧
        ∃ swapped, cmd = .pgUpgradeServe (some swapped)) ∧
    Ascending (applyAll {} cmds).voterIntent ∧
    (∀ id, b.insertVoter (applyAll {} cmds).voterIntent id =
      insertSorted (applyAll {} cmds).voterIntent id) ∧
    (∀ id, (∀ cmd ∈ later, cmd ≠ .intendVoter id) →
      id ∉ (applyAll ((applyAll {} cmds).apply (.removeNode id)).1 later).voterIntent) := by
  have ha : Ascending (applyAll {} cmds).voterIntent := @ascending_applyAll {} .nil cmds
  refine ⟨continues_applyAll _ later,fun cmd => lineage_apply,ha,?_,fun id hl => ?_⟩
  · exact insertVoter_eq_insertSorted b ha
  · exact notMem_voterIntent_applyAll (notMem_voterIntent_removeNode _ id) hl

def scanFrom (id : NodeId) : List NodeId → Except ℕ ℕ
  | [] => .error 0
  | x::xs =>
    if id < x then .error 0
    else if x = id then .ok 0
    else match scanFrom id xs with
      | .ok i => .ok (i+1)
      | .error i => .error (i+1)

theorem scanFrom_found {id : NodeId} {i : ℕ} (h : scanFrom id ids = .ok i) : id ∈ ids := by
  induction ids generalizing i with
  | nil => cases h
  | cons x xs ih =>
    rw [scanFrom] at h
    split_ifs at h with hlt heq
    · exact heq ▸ List.mem_cons_self
    · split at h
      next hr => exact List.mem_cons_of_mem x (ih hr)
      next => cases h

theorem scanFrom_missing {id : NodeId} {i : ℕ} (hi : Ascending ids) (h : scanFrom id ids = .error i)
    : (∀ x ∈ ids.take i, x < id) ∧ ∀ x ∈ ids.drop i, id < x := by
  induction ids generalizing i with
  | nil => simp
  | cons x xs ih =>
    obtain ⟨hf,hr⟩ := List.pairwise_cons.1 hi
    rw [scanFrom] at h
    split_ifs at h with hlt heq
    · cases h
      refine ⟨fun y hy => absurd hy List.not_mem_nil,fun y hy => ?_⟩
      rcases List.mem_cons.1 hy with rfl | hy
      · exact hlt
      · exact hlt.trans (hf y hy)
    · split at h
      next => cases h
      next j hj =>
        cases h
        obtain ⟨hb,ha⟩ := ih hr hj
        refine ⟨fun y hy => ?_,ha⟩
        rcases List.mem_cons.1 hy with rfl | hy
        · exact lt_of_le_of_ne (not_lt.1 hlt) heq
        · exact hb y hy

def scan : BinarySearch where
  search ids id := scanFrom id ids
  found _ _ _ _ h := scanFrom_found h
  missing _ _ _ hids h := scanFrom_missing hids h

theorem committed_facts_removed :
    let cmds := [.setFeatureLevel 1,.intendVoter 4,.intendVoter 2,.intendVoter 4]
    (applyAll {} cmds).voterIntent = [2,4] ∧ 4 ∉ (applyAll ((applyAll {} cmds).apply (.removeNode 4)).1
      [.setSyncMode true,.intendVoter 3]).voterIntent :=
  ⟨by decide +kernel,(committed_facts scan _ _).2.2.2.2 4 (by simp)⟩

end Voters

section Standbys
variable {node : NodeId}

def isUpgrade : ClusterCommand → Bool
  | .pgUpgradeFreeze _ | .pgUpgradeServe _ | .pgUpgradeRejoined _ | .pgUpgradeAbort => true
  | _ => false

def served (g : Bool) (s : ClusterState) : ClusterCommand → Bool
  | .pgUpgradeServe lineage => g || s.applies (.pgUpgradeServe lineage)
  | _ => g

/-- The command lets a stopped standby go: its rejoin, its removal, or an abort of a freeze that has not
been served. -/
def lets (node : NodeId) (p : ClusterState × Bool) : ClusterCommand → Bool
  | .pgUpgradeRejoined id | .removeNode id => id = node
  | .pgUpgradeAbort => p.1.applies .pgUpgradeAbort && !p.2
  | _ => false

/-- The standby is on the record, and a served freeze is over. -/
def Awaited (node : NodeId) (p : ClusterState × Bool) : Prop :=
  node ∈ p.1.pgUpgrade.awaitingRejoin ∧ (p.2 = true → p.1.pgUpgrade.frozen = false)

theorem outcome_of_isUpgrade (h : isUpgrade cmd) :
    (s.applyAdmitted cmd).2 = (s.pgUpgrade.apply cmd).2 := by
  cases cmd with
  | pgUpgradeFreeze standbys => rfl
  | pgUpgradeServe lineage =>
    cases lineage with
    | none => rfl
    | some swapped =>
      rw [applyAdmitted,serveUpgrade]
      split_ifs <;> rfl
  | pgUpgradeRejoined id => rfl
  | pgUpgradeAbort => rfl
  | _ => cases h

theorem applies_of_isUpgrade (hc : isUpgrade cmd) (h : s.applies cmd) :
    s.admits cmd ∧ (s.pgUpgrade.apply cmd).2 = .applied := by
  rw [applies,apply] at h
  split_ifs at h with ha
  · exact ⟨ha,(outcome_of_isUpgrade hc).symm.trans (of_decide_eq_true h)⟩
  · cases h

theorem awaited_step {g : Bool} (h : Awaited node (s,g)) (hc : lets node (s,g) cmd = false) :
    Awaited node ((s.apply cmd).1,served g s cmd) := by
  obtain ⟨hl,hs⟩ := h
  have hne : s.pgUpgrade.awaitingRejoin ≠ [] := List.ne_nil_of_mem hl
  by_cases ha : s.admits cmd
  · rw [apply_fst,if_pos ha]
    cases cmd with
    | removeNode id =>
      have hid : node ≠ id := fun h => of_decide_eq_false hc h.symm
      exact ⟨List.mem_filter.2 ⟨hl,decide_eq_true hid⟩,hs⟩
    | pgUpgradeFreeze standbys =>
      have hsa : s.upgradeAfter (.pgUpgradeFreeze standbys) = s.pgUpgrade :=
        (PgUpgradeState.apply_freeze hne standbys).1
      rw [Awaited,after,hsa]
      exact ⟨hl,hs⟩
    | pgUpgradeServe lineage => exact ⟨hl,fun _ => rfl⟩
    | pgUpgradeRejoined id =>
      have hid : node ≠ id := fun h => of_decide_eq_false hc h.symm
      exact ⟨List.mem_filter.2 ⟨hl,decide_eq_true hid⟩,hs⟩
    | pgUpgradeAbort =>
      -- once served it is refused, and until then it would let the standby go
      have hsa : s.upgradeAfter .pgUpgradeAbort = s.pgUpgrade := by
        cases g with
        | true => exact congrArg Prod.fst (PgUpgradeState.apply_abort (hs rfl) hne)
        | false =>
          refine PgUpgradeState.apply_refused ?_
          have ho : (s.applies .pgUpgradeAbort && !false) = false := hc
          rw [Bool.not_false,Bool.and_true,applies,apply,if_pos ha,outcome_of_isUpgrade rfl] at ho
          cases hr : (s.pgUpgrade.apply .pgUpgradeAbort).2 with
          | outOfOrder => rfl
          | applied => simp [hr] at ho
      rw [Awaited,after,hsa]
      exact ⟨hl,hs⟩
    | _ => exact ⟨hl,hs⟩
  · have hse : served g s cmd = g := by
      cases cmd with
      | pgUpgradeServe lineage => simp [served,applies,apply,ha]
      | _ => rfl
    rw [apply_fst,if_neg ha,hse]
    exact ⟨hl,hs⟩

theorem awaited_of_freeze {standbys : List NodeId} (h : s.applies (.pgUpgradeFreeze standbys))
    (hn : node ∈ standbys) : Awaited node ((s.apply (.pgUpgradeFreeze standbys)).1,false) := by
  obtain ⟨had,ha⟩ := applies_of_isUpgrade rfl h
  refine ⟨?_,fun h => nomatch h⟩
  rw [apply_fst,if_pos had]
  change node ∈ (s.pgUpgrade.apply (.pgUpgradeFreeze standbys)).1.awaitingRejoin
  rw [PgUpgradeState.apply] at ha ⊢
  split_ifs at ha ⊢ with hs hb
  · exact hs.2 ▸ hn
  · exact hn

/-- An upgrade command taken again right after it applied applies again and leaves the record as it is. -/
theorem upgrade_again (hc : isUpgrade cmd) (h : s.applies cmd) :
    ((s.apply cmd).1.apply cmd).1.pgUpgrade = (s.apply cmd).1.pgUpgrade ∧
      (s.apply cmd).1.applies cmd := by
  obtain ⟨ha,hap⟩ := applies_of_isUpgrade hc h
  have hr : (s.apply cmd).1.pgUpgrade = (s.pgUpgrade.apply cmd).1 := by
    rw [apply_fst,if_pos ha]
    cases cmd with
    | removeNode id => cases hc
    | _ => rfl
  have hs : (s.apply cmd).1.admits cmd := by
    rw [apply_fst,if_pos ha]
    cases cmd with
    | setFeatureLevel level => rfl
    | _ => exact ha
  have hag := PgUpgradeState.apply_again hap
  rw [← hr] at hag
  refine ⟨?_,?_⟩
  · rw [apply_fst,if_pos hs]
    cases cmd with
    | removeNode id => cases hc
    | _ => exact congrArg Prod.fst hag
  · rw [applies,apply,if_pos hs,outcome_of_isUpgrade hc,hag]
    rfl

/-- A standby that a freeze lists is awaited until something lets it go; no freeze of another list than
the one still awaited applies meanwhile; and every upgrade command may be retried. -/
theorem standby_awaited (s : ClusterState) (standbys : List NodeId) (node : NodeId)
    (hnode : node ∈ standbys) (hfreeze : s.applies (.pgUpgradeFreeze standbys) = true)
    (later : List ClusterCommand) (hlater : Guarded (noted served) (fun p cmd => lets node p cmd = false)
      ((s.apply (.pgUpgradeFreeze standbys)).1,false) later) :
    let t := (follow served ((s.apply (.pgUpgradeFreeze standbys)).1,false) later).1
    node ∈ t.pgUpgrade.awaitingRejoin ∧
    (∀ other, t.applies (.pgUpgradeFreeze other) → other = t.pgUpgrade.awaitingRejoin) ∧
    ∀ u cmd, isUpgrade cmd → ClusterState.applies u cmd →
      ((u.apply cmd).1.apply cmd).1.pgUpgrade = (u.apply cmd).1.pgUpgrade ∧
        (u.apply cmd).1.applies cmd := by
  have hs : ∀ p cmd q, Awaited node p → lets node p cmd = false → noted served p cmd = some q →
      Awaited node q := by
    rintro ⟨t,g⟩ cmd q hp hc ⟨⟩
    exact awaited_step hp hc
  have ha := run_invariant_guarded hs (awaited_of_freeze hfreeze hnode) hlater (run_noted _ _)
  refine ⟨ha.1,fun other ho => ?_,fun u cmd => upgrade_again⟩
  have hne := List.ne_nil_of_mem ha.1
  exact ((PgUpgradeState.apply_freeze hne other).2 (applies_of_isUpgrade rfl ho).2).symm

def level1 : ClusterState := {featureLevel := 1}

theorem standby_awaited_served :
    let t := (follow served ((level1.apply (.pgUpgradeFreeze [2,3])).1,false)
      [.pgUpgradeServe (some 9),.pgUpgradeAbort,.pgUpgradeRejoined 3]).1
    t.pgUpgrade = ⟨false,[2]⟩ ∧ 2 ∈ t.pgUpgrade.awaitingRejoin :=
  ⟨by decide +kernel,
    (standby_awaited level1 [2,3] 2 (by decide) (by decide +kernel) _ (by decide +kernel)).1⟩

/-- Once a standby is gone, a freeze of the others is a retry of the one in force. -/
theorem shorter_freeze_applies : ∃ s : ClusterState,
    s = applyAll level1 [.pgUpgradeFreeze [2,3],.removeNode 3] ∧ 2 ∈ s.pgUpgrade.awaitingRejoin ∧
      s.applies (.pgUpgradeFreeze [2]) = true :=
  ⟨_,rfl,by decide +kernel,by decide +kernel⟩

end Standbys
end CommittedFacts
end PgBattery
