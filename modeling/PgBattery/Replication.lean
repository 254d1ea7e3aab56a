import PgBattery.LogStore
import PgBattery.Quorum

/-! How a leader sizes its synchronous standbys, and whether a write they acknowledge is held by
every set of nodes that can elect the next leader. -/
namespace PgBattery
namespace Replication
open StateMachine LogApply LogStore Quorum List

def requiredSyncStandbys (otherVoterCount : ℕ) : ℕ := otherVoterCount/2

def syncStandbyList (peerNames : List String) : String :=
  let required := requiredSyncStandbys peerNames.length
  let names := String.intercalate ", " peerNames
  if required = 0 then "" else s!"FIRST {required} ({names})"

def nodeName (id : NodeId) : String := "pgbattery_node_"++toString id.val

def peerVoterNames (voterIds : Finset NodeId) (selfId : NodeId) : List String :=
  ((voterIds.filter (· ≠ selfId)).val.map nodeName).sort (· ≤ ·)

inductive SyncPlan
  | fullList
  | asyncFallback
  deriving DecidableEq

/-- The plan, and whether it gives up durability a standby could deliver. -/
def planSyncReplication (peerCount healthyVoterCount : ℕ) (hasQuorum inLeaderGrace : Bool) :
    SyncPlan × Bool :=
  if healthyVoterCount = 0 ∧ hasQuorum ∧ ¬ inLeaderGrace then (.asyncFallback,0 < peerCount)
  else (.fullList,false)

def writesMayOpen (syncListEmpty : Bool) (syncStandbys required : ℕ) (committedAsync : Bool) : Bool :=
  if syncListEmpty then required = 0 || committedAsync else required ≤ syncStandbys

theorem nodeName_injective : Function.Injective nodeName := by
  intro a b h
  have hr : toString a.val = toString b.val := (String.append_right_inj _).1 h
  exact Fin.ext (Nat.repr_injective hr)

@[simp] theorem length_peerVoterNames (voterIds : Finset NodeId) (selfId : NodeId) :
    (peerVoterNames voterIds selfId).length = (voterIds.erase selfId).card := by
  rw [peerVoterNames,Multiset.length_sort,Multiset.card_map,Finset.card_val,
    Finset.filter_ne']

@[simp] theorem nodeName_mem_peerVoterNames {voterIds : Finset NodeId} {selfId id : NodeId} :
    nodeName id ∈ peerVoterNames voterIds selfId ↔ id ∈ voterIds.erase selfId := by
  rw [peerVoterNames,Multiset.mem_sort,Multiset.mem_map_of_injective nodeName_injective,
    Finset.mem_val,Finset.filter_ne']

/-- The voter ids a state keeps of a membership: those of all its configurations together. -/
def flattenedVoters (m : JointMembership) : Finset NodeId :=
  ((splitMembershipNodes (membershipToLocal none m)).1.map Prod.fst).toFinset

theorem mem_flattenedVoters {m : JointMembership} {id : NodeId} :
    id ∈ flattenedVoters m ↔ ∃ config ∈ m.configs, id ∈ config := by
  have hf : id ∈ (membershipToLocal none m).configs.flatten ↔
      ∃ config ∈ m.configs, id ∈ config := by
    simp [membershipToLocal]
  rw [← hf,flattenedVoters,mem_toFinset,mem_map]
  simp only [splitMembershipNodes,partition_eq_filter_filter,mem_filter]
  constructor
  · rintro ⟨a,⟨_,ha⟩,rfl⟩
    simpa using ha
  · intro hid
    obtain ⟨config,hc,hm⟩ := hf.1 hid
    have hn : id ∈ m.nodes := m.known config hc id hm
    obtain ⟨addr,had⟩ : ∃ addr, m.nodes[id]? = some addr :=
      ⟨_,Std.ExtTreeMap.getElem?_eq_some_getElem hn⟩
    refine ⟨(id,addr),⟨?_,by simpa using hid⟩,rfl⟩
    exact Std.ExtTreeMap.mem_toList_iff_getElem?_eq_some.2 had

theorem flattenedVoters_eq (m : JointMembership) :
    flattenedVoters m = m.configs.foldr (· ∪ ·) ∅ := by
  ext id
  rw [mem_flattenedVoters]
  induction m.configs with
  | nil => simp
  | cons config configs ih => simp [← ih]

/-- What an acknowledged write is held by: the leader and as many of the listed peers as are
required. -/
def WriteSet (m : JointMembership) (leader : NodeId) (w : Finset NodeId) : Prop :=
  ∃ standbys : Finset NodeId,
    (∀ id ∈ standbys, nodeName id ∈ peerVoterNames (flattenedVoters m) leader) ∧
    standbys.card = requiredSyncStandbys (peerVoterNames (flattenedVoters m) leader).length ∧
    w = insert leader standbys

/-- The nodes that can elect: a majority of every configuration. -/
def CanElect (m : JointMembership) (q : Finset NodeId) : Prop :=
  ∀ config ∈ m.configs, Majority config q

theorem writeSet_iff {m : JointMembership} {leader : NodeId} {w : Finset NodeId} :
    WriteSet m leader w ↔ ∃ standbys ⊆ (flattenedVoters m).erase leader,
      standbys.card = ((flattenedVoters m).erase leader).card/2 ∧ w = insert leader standbys := by
  simp only [WriteSet,nodeName_mem_peerVoterNames,length_peerVoterNames,requiredSyncStandbys]
  rfl

section Meet
variable {m : JointMembership} {leader : NodeId}

theorem meets_of_majority {w q : Finset NodeId} (hl : leader ∈ flattenedVoters m)
    (hw : WriteSet m leader w) (hq : Majority (flattenedVoters m) q) : (w ∩ q).Nonempty := by
  obtain ⟨standbys,hs,hc,rfl⟩ := writeSet_iff.1 hw
  have hn : leader ∉ standbys := fun h => (Finset.mem_erase.1 (hs h)).1 rfl
  have ha : insert leader standbys ⊆ flattenedVoters m :=
    Finset.insert_subset hl (hs.trans (Finset.erase_subset _ _))
  have hinter : (flattenedVoters m ∩ insert leader standbys).card = standbys.card+1 := by
    rw [Finset.inter_eq_right.2 ha,Finset.card_insert_of_notMem hn]
  have he := Finset.card_erase_of_mem hl
  unfold Majority at hq
  have hm : (flattenedVoters m).card < (flattenedVoters m ∩ insert leader standbys).card+
      (flattenedVoters m ∩ q).card := by omega
  obtain ⟨id,_,hw,hid⟩ := exists_common hm
  exact ⟨id,Finset.mem_inter.2 ⟨hw,hid⟩⟩

/-- A set with half of the voters or fewer, the leader not among them, leaves room for a write set. -/
theorem exists_writeSet_disjoint {q : Finset NodeId} (hl : leader ∈ flattenedVoters m)
    (hlq : leader ∉ q) (hq : ¬ Majority (flattenedVoters m) q) :
    ∃ w, WriteSet m leader w ∧ ¬ (w ∩ q).Nonempty := by
  have he := Finset.card_erase_of_mem hl
  have hp := Finset.card_pos.2 ⟨leader,hl⟩
  have hh : 2*(flattenedVoters m ∩ q).card ≤ (flattenedVoters m).card := not_lt.1 hq
  have hsp := Finset.card_sdiff_add_card_inter ((flattenedVoters m).erase leader) q
  have hle : ((flattenedVoters m).erase leader ∩ q).card ≤ (flattenedVoters m ∩ q).card :=
    Finset.card_le_card (Finset.inter_subset_inter_right (Finset.erase_subset _ _))
  have hr : ((flattenedVoters m).erase leader).card/2 ≤
      ((flattenedVoters m).erase leader \ q).card := by omega
  obtain ⟨standbys,hsu,hc⟩ := Finset.exists_subset_card_eq hr
  refine ⟨insert leader standbys,
    writeSet_iff.2 ⟨standbys,hsu.trans Finset.sdiff_subset,hc,rfl⟩,?_⟩
  rintro ⟨id,hid⟩
  obtain ⟨hw,hi⟩ := Finset.mem_inter.1 hid
  rcases Finset.mem_insert.1 hw with rfl | hs
  · exact hlq hi
  · exact (Finset.mem_sdiff.1 (hsu hs)).2 hi

theorem majority_of_top {top q : Finset NodeId} (ht : top ∈ m.configs)
    (hs : ∀ config ∈ m.configs, config ⊆ top) (hq : CanElect m q) :
    Majority (flattenedVoters m) q := by
  have heq : flattenedVoters m = top := by
    ext id
    rw [mem_flattenedVoters]
    exact ⟨fun ⟨config,hc,hid⟩ => hs config hc hid,fun hid => ⟨top,ht,hid⟩⟩
  rw [heq]
  exact hq top ht

end Meet

/-- Every acknowledged write meets every electing set exactly when each electing set that leaves
the leader out holds more than half of the flattened voters. -/
theorem write_set_meets_quorums_iff (m : JointMembership) (leader : NodeId)
    (hl : leader ∈ flattenedVoters m) :
    (∀ w q, WriteSet m leader w → CanElect m q → (w ∩ q).Nonempty) ↔
      ∀ q, CanElect m q → leader ∉ q → Majority (flattenedVoters m) q := by
  constructor
  · intro h q hq hlq
    by_contra hno
    obtain ⟨w,hw,hd⟩ := exists_writeSet_disjoint hl hlq hno
    exact hd (h w q hw hq)
  · intro h w q hw hq
    by_cases hlq : leader ∈ q
    · obtain ⟨standbys,_,_,rfl⟩ := hw
      exact ⟨leader,Finset.mem_inter.2 ⟨Finset.mem_insert_self _ _,hlq⟩⟩
    · exact meets_of_majority hl hw (h q hq hlq)

def adding : JointMembership := .new [[1,2,3],[1,2,3,4]] ∅

theorem write_set_meets_quorums_adding :
    4 ∈ flattenedVoters adding ∧
      ∀ w q, WriteSet adding 4 w → CanElect adding q → (w ∩ q).Nonempty := by
  have hl : 4 ∈ flattenedVoters adding := by
    rw [flattenedVoters_eq]
    decide
  have hco : adding.configs = [{1,2,3},{1,2,3,4}] := by
    simp [adding,JointMembership.new]
  have hs : ∀ config ∈ adding.configs, config ⊆ {1,2,3,4} := by
    intro config hc
    simp only [hco,mem_cons,not_mem_nil,or_false] at hc
    rcases hc with rfl | rfl
    · decide
    · exact Finset.Subset.refl _
  refine ⟨hl,(write_set_meets_quorums_iff _ 4 hl).2 fun q hq _ => majority_of_top ?_ hs hq⟩
  rw [hco]
  exact mem_cons_of_mem _ mem_cons_self

def replacing : JointMembership := .new [[1,2,4],[2,3,4]] ∅

/-- The leader on its way out and the voter on its way in hold a write that the two voters of both
configurations elect without. -/
theorem replacing_voter_escapes_write_set :
    1 ∈ flattenedVoters replacing ∧ WriteSet replacing 1 {1,3} ∧ CanElect replacing {2,4} ∧
      ¬ ({1,3} ∩ {2,4} : Finset NodeId).Nonempty := by
  have hv : flattenedVoters replacing = {1,2,3,4} := by
    rw [flattenedVoters_eq]
    decide
  refine ⟨by rw [hv]; decide,writeSet_iff.2 ⟨{3},?_,?_,rfl⟩,?_,by decide⟩
  · rw [hv]
    decide
  · rw [hv]
    decide
  · intro config hc
    simp only [replacing,JointMembership.new,List.map,mem_cons,not_mem_nil,or_false] at hc
    rcases hc with rfl | rfl
    · decide
    · decide

end Replication
end PgBattery
