import PgBattery.Commands
import PgBattery.OrderedMap

/-! Log entries and what applying them does to the cluster state: memberships are reconciled into
the node map by removing the nodes that left. -/
namespace PgBattery
namespace LogApply
open StateMachine OrderedMap List

structure LocalStoredMembership where
  logIdIndex : Option U64
  logIdTerm : Option U64
  logIdLeaderNodeId : NodeId
  configs : List (List NodeId)
  nodes : List (NodeId × String)
  deriving DecidableEq

inductive LogEntryPayload
  | blank
  | normal (cmd : ClusterCommand)
  | membership (membership : LocalStoredMembership)
  deriving DecidableEq

structure LogEntry where
  index : U64
  term : U64
  leaderNodeId : NodeId
  payload : LogEntryPayload
  deriving DecidableEq

def splitMembershipNodes (m : LocalStoredMembership) :
    List (NodeId × String) × List (NodeId × String) :=
  m.nodes.partition fun node => node.1 ∈ m.configs.flatten

def syncMembershipInto (s : ClusterState) (voters learners : List (NodeId × String)) :
    ClusterState :=
  let membershipNodeIds := (voters++learners).map Prod.fst
  let nodesToRemove := s.nodes.keys.filter (· ∉ membershipNodeIds)
  {nodesToRemove.foldl (fun s id => (s.apply (.removeNode id)).1) s with
    voterIds := (voters.map Prod.fst).toFinset
    learnerIds := (learners.map Prod.fst).toFinset}

def applyMembership (s : ClusterState) (index : U64) (m : LocalStoredMembership) : ClusterState :=
  if s.reflects index then s
  else (syncMembershipInto s (splitMembershipNodes m).1 (splitMembershipNodes m).2).noteApplied index

/-- The effect of one committed entry, the same on the live path and on replay. -/
def applyLogEntry (s : ClusterState) (e : LogEntry) : ClusterState :=
  match e.payload with
  | .blank => s.noteApplied e.index
  | .normal cmd => (s.applyEntry e.index cmd).1
  | .membership m => applyMembership s e.index m

def applyLog (s : ClusterState) (log : List LogEntry) : ClusterState := log.foldl applyLogEntry s

structure PeerConfig where
  id : NodeId
  pgAddr : SocketAddr
  raftAddr : SocketAddr
  mgmtAddr : SocketAddr
  metricsAddr : SocketAddr

def PeerConfig.nodeInfo (p : PeerConfig) : NodeInfo :=
  ⟨p.id,p.pgAddr,p.raftAddr,p.mgmtAddr,p.metricsAddr,.follower,0⟩

/-- The node records layered over a restored state at boot: this node's own, then its peers'. -/
def layerConfigured (s : ClusterState) (configured : List PeerConfig) : ClusterState :=
  configured.foldl (fun s p => (s.apply (.addNode p.nodeInfo)).1) s

def memberIds (m : LocalStoredMembership) : List NodeId := m.nodes.map Prod.fst

@[simp] theorem apply_removeNode (s : ClusterState) (id : NodeId) :
    s.apply (.removeNode id) = (s.removeNode id,.applied) := by
  have h : s.admits (.removeNode id) := by
    simp [ClusterState.admits,ClusterCommand.requiredFeatureLevel]
  rw [ClusterState.apply,if_pos h,ClusterState.applyAdmitted]

@[simp] theorem apply_addNode (s : ClusterState) (info : NodeInfo) :
    s.apply (.addNode info) = ({s with nodes := s.nodes.insert info.id info},.applied) := by
  have h : s.admits (.addNode info) := by
    simp [ClusterState.admits,ClusterCommand.requiredFeatureLevel]
  rw [ClusterState.apply,if_pos h,ClusterState.applyAdmitted]

/-- Drop ids from every record that waits on a node. -/
def dropNodes (s : ClusterState) (p : NodeId → Bool) : ClusterState :=
  {s with
    nodes := retain s.nodes fun id => !p id
    pgUpgrade := {s.pgUpgrade with
      awaitingRejoin := s.pgUpgrade.awaitingRejoin.filter fun id => !p id}
    voterIntent := s.voterIntent.filter fun id => !p id}

theorem dropNodes_congr {s : ClusterState} {p q : NodeId → Bool} (h : ∀ id, p id = q id) :
    dropNodes s p = dropNodes s q := by
  rw [funext h]

theorem removeNode_eq_dropNodes (s : ClusterState) (id : NodeId) :
    s.removeNode id = dropNodes s (· = id) := by
  have hn : s.nodes.erase id = retain s.nodes fun a => !(a = id : Bool) := by
    apply Std.ExtTreeMap.ext_getElem?
    intro a
    rw [getElem?_erase,getElem?_retain]
    by_cases h : a = id
    · simp [h]
    · simp [h,Ne.symm h]
  simp only [ClusterState.removeNode,dropNodes,hn]
  congr <;> simp

theorem dropNodes_dropNodes (s : ClusterState) (p q : NodeId → Bool) :
    dropNodes (dropNodes s p) q = dropNodes s fun id => p id || q id := by
  have hn : retain (retain s.nodes fun a => !p a) (fun a => !q a) =
      retain s.nodes fun a => !(p a || q a) := by
    apply Std.ExtTreeMap.ext_getElem?
    intro a
    simp only [getElem?_retain]
    cases p a <;> cases q a <;> simp
  simp only [dropNodes,hn,filter_filter]
  congr <;> funext a <;> cases p a <;> cases q a <;> rfl

theorem dropNodes_none (s : ClusterState) : dropNodes s (fun _ => false) = s := by
  have hn : retain s.nodes (fun _ => !false) = s.nodes := by
    apply Std.ExtTreeMap.ext_getElem?
    intro a
    simp
  simp only [dropNodes,hn]
  simp

theorem foldl_removeNode (s : ClusterState) (ids : List NodeId) :
    ids.foldl (fun s id => (s.apply (.removeNode id)).1) s = dropNodes s (· ∈ ids) := by
  induction ids generalizing s with
  | nil => simpa using (dropNodes_none s).symm
  | cons id ids ih =>
    rw [foldl_cons,ih,apply_removeNode,removeNode_eq_dropNodes,dropNodes_dropNodes]
    exact dropNodes_congr fun a => by simp

def departed (s : ClusterState) (m : LocalStoredMembership) (id : NodeId) : Bool :=
  id ∈ s.nodes ∧ id ∉ memberIds m

theorem split_fst (m : LocalStoredMembership) (id : NodeId) :
    id ∈ (((splitMembershipNodes m).1++(splitMembershipNodes m).2).map Prod.fst) ↔
      id ∈ memberIds m := by
  simp only [splitMembershipNodes,partition_eq_filter_filter,memberIds,map_append,
    mem_append,mem_map,mem_filter,Function.comp]
  constructor
  · rintro (⟨a,⟨ha,_⟩,rfl⟩ | ⟨a,⟨ha,_⟩,rfl⟩)
    · exact ⟨a,ha,rfl⟩
    · exact ⟨a,ha,rfl⟩
  · rintro ⟨a,ha,rfl⟩
    by_cases h : a.1 ∈ m.configs.flatten
    · exact .inl ⟨a,⟨ha,by simp [h]⟩,rfl⟩
    · exact .inr ⟨a,⟨ha,by simp [h]⟩,rfl⟩

theorem syncMembershipInto_eq (s : ClusterState) (m : LocalStoredMembership) :
    syncMembershipInto s (splitMembershipNodes m).1 (splitMembershipNodes m).2 =
      {dropNodes s (departed s m) with
        voterIds := ((splitMembershipNodes m).1.map Prod.fst).toFinset
        learnerIds := ((splitMembershipNodes m).2.map Prod.fst).toFinset} := by
  have hp : dropNodes s (· ∈ s.nodes.keys.filter
      (· ∉ ((splitMembershipNodes m).1++(splitMembershipNodes m).2).map Prod.fst)) =
      dropNodes s (departed s m) := by
    apply dropNodes_congr
    intro id
    simp only [departed,mem_filter,Std.ExtTreeMap.mem_keys,split_fst,decide_eq_true_eq]
  rw [syncMembershipInto,foldl_removeNode,hp]

variable {m : LocalStoredMembership}

theorem applyMembership_reflected {s : ClusterState} {index : U64} (h : s.reflects index) :
    applyMembership s index m = s := by
  rw [applyMembership,if_pos h]

theorem applyMembership_fresh {s : ClusterState} {index : U64} (h : ¬ s.reflects index) :
    applyMembership s index m =
      {dropNodes s (departed s m) with
        voterIds := ((splitMembershipNodes m).1.map Prod.fst).toFinset
        learnerIds := ((splitMembershipNodes m).2.map Prod.fst).toFinset
        appliedIndex := some index} := by
  rw [applyMembership,if_neg h,syncMembershipInto_eq,ClusterState.noteApplied,if_neg]
  exact h

/-- The same state over another node map and another voter set: what a replica's own configuration
and metrics may change. -/
def overlay (s : ClusterState) (nodes : Std.ExtTreeMap NodeId NodeInfo) (voterIds : Finset NodeId) :
    ClusterState :=
  {s with nodes := nodes, voterIds := voterIds}

theorem layerConfigured_eq (s : ClusterState) (configured : List PeerConfig) :
    layerConfigured s configured = overlay s (layerConfigured s configured).nodes s.voterIds := by
  induction configured generalizing s with
  | nil => rfl
  | cons p configured ih =>
    have h := ih (s.apply (.addNode p.nodeInfo)).1
    rw [apply_addNode] at h
    rw [layerConfigured,foldl_cons,apply_addNode]
    exact h

section Overlay
variable (s : ClusterState) (nodes : Std.ExtTreeMap NodeId NodeInfo) (voterIds : Finset NodeId)

@[simp] theorem overlay_reflects (index : U64) :
    (overlay s nodes voterIds).reflects index = s.reflects index := rfl

theorem overlay_noteApplied (index : U64) :
    (overlay s nodes voterIds).noteApplied index =
      overlay (s.noteApplied index) nodes voterIds := by
  rw [ClusterState.noteApplied,ClusterState.noteApplied,overlay_reflects]
  split <;> rfl

theorem overlay_applyAdmitted (cmd : ClusterCommand) :
    ((overlay s nodes voterIds).applyAdmitted cmd).1 =
      overlay (s.applyAdmitted cmd).1 (nodesAfter nodes cmd) voterIds := by
  rw [ClusterState.applyAdmitted_fst,ClusterState.applyAdmitted_fst]
  cases cmd <;> rfl

theorem overlay_apply (cmd : ClusterCommand) (h : s.admits cmd) :
    ((overlay s nodes voterIds).apply cmd).1 =
      overlay (s.apply cmd).1 (nodesAfter nodes cmd) voterIds := by
  have h' : (overlay s nodes voterIds).admits cmd := by
    cases cmd <;> exact h
  rw [ClusterState.apply,if_pos h',ClusterState.apply,if_pos h,overlay_applyAdmitted]

theorem overlay_apply_refused (cmd : ClusterCommand) (h : ¬ s.admits cmd) :
    ((overlay s nodes voterIds).apply cmd).1 = overlay (s.apply cmd).1 nodes voterIds := by
  have h' : ¬ (overlay s nodes voterIds).admits cmd := by
    cases cmd <;> exact h
  rw [ClusterState.apply,if_neg h',ClusterState.apply,if_neg h]

theorem overlay_applyEntry (index : U64) (cmd : ClusterCommand) (h : ¬ s.reflects index) :
    ((overlay s nodes voterIds).applyEntry index cmd).1 =
      overlay (s.applyEntry index cmd).1 (if s.admits cmd then nodesAfter nodes cmd else nodes)
        voterIds := by
  have h' : ¬ (overlay s nodes voterIds).reflects index := h
  rw [ClusterState.applyEntry,if_neg h',ClusterState.applyEntry,if_neg h]
  have ha : ({s with appliedIndex := some index} : ClusterState).admits cmd = s.admits cmd := by
    cases cmd <;> rfl
  rw [← ha]
  by_cases hc : ({s with appliedIndex := some index} : ClusterState).admits cmd
  · rw [if_pos hc]
    exact overlay_apply _ nodes voterIds cmd hc
  · rw [if_neg hc]
    exact overlay_apply_refused _ nodes voterIds cmd hc

end Overlay

/-- Ids an upgrade or a voter intent waits on. -/
def awaited (s : ClusterState) : List NodeId := s.pgUpgrade.awaitingRejoin++s.voterIntent

/-- Over the node map `nodes` the entry drops the same awaited ids as over the state's own. -/
def Quiet (s : ClusterState) (nodes : Std.ExtTreeMap NodeId NodeInfo) (e : LogEntry) : Prop :=
  ∀ m, e.payload = .membership m → s.reflects e.index = false →
    ∀ id ∈ awaited s, id ∉ memberIds m → (id ∈ s.nodes ↔ id ∈ nodes)

def entryNodes (s : ClusterState) (nodes : Std.ExtTreeMap NodeId NodeInfo) (e : LogEntry) :
    Std.ExtTreeMap NodeId NodeInfo :=
  if s.reflects e.index then nodes
  else match e.payload with
    | .blank => nodes
    | .normal cmd => if s.admits cmd then nodesAfter nodes cmd else nodes
    | .membership m => retain nodes (· ∈ memberIds m)

def entryVoterIds (s : ClusterState) (voterIds : Finset NodeId) (e : LogEntry) : Finset NodeId :=
  if s.reflects e.index then voterIds
  else match e.payload with
    | .blank | .normal _ => voterIds
    | .membership m => ((splitMembershipNodes m).1.map Prod.fst).toFinset

theorem retain_departed (s : ClusterState) (m : LocalStoredMembership) :
    retain s.nodes (fun id => !departed s m id) = retain s.nodes (· ∈ memberIds m) := by
  apply Std.ExtTreeMap.ext_getElem?
  intro id
  rw [getElem?_retain,getElem?_retain]
  by_cases hn : id ∈ s.nodes
  · simp [departed,hn]
  · have hno := Std.ExtTreeMap.getElem?_eq_none hn
    simp [hno]

theorem filter_departed {s : ClusterState} {nodes : Std.ExtTreeMap NodeId NodeInfo}
    {ids : List NodeId} (voterIds : Finset NodeId)
    (h : ∀ id ∈ ids, id ∉ memberIds m → (id ∈ s.nodes ↔ id ∈ nodes)) :
    ids.filter (fun id => !departed (overlay s nodes voterIds) m id) =
      ids.filter fun id => !departed s m id := by
  apply filter_congr
  intro id hid
  by_cases hm : id ∈ memberIds m
  · simp [departed,hm]
  · simp [departed,hm,overlay,h id hid hm]

theorem applyLogEntry_overlay {s : ClusterState} {nodes : Std.ExtTreeMap NodeId NodeInfo}
    {e : LogEntry} (voterIds : Finset NodeId) (hq : Quiet s nodes e) :
    applyLogEntry (overlay s nodes voterIds) e =
      overlay (applyLogEntry s e) (entryNodes s nodes e) (entryVoterIds s voterIds e) := by
  by_cases hr : s.reflects e.index
  · rw [applyLogEntry,applyLogEntry,entryNodes,entryVoterIds,if_pos hr,if_pos hr]
    cases e.payload with
    | blank => exact overlay_noteApplied s nodes voterIds e.index
    | normal cmd => simp [ClusterState.applyEntry,hr]
    | membership m =>
      simp only [applyMembership_reflected hr]
      exact applyMembership_reflected hr
  · rw [applyLogEntry,applyLogEntry,entryNodes,entryVoterIds,if_neg hr,if_neg hr]
    cases hp : e.payload with
    | blank => exact overlay_noteApplied s nodes voterIds e.index
    | normal cmd => exact overlay_applyEntry s nodes voterIds e.index cmd hr
    | membership m =>
      have hq := hq m hp (by simpa using hr)
      have hr' : ¬ (overlay s nodes voterIds).reflects e.index := hr
      have ha := filter_departed voterIds
        fun id hid => hq id (mem_append_left _ hid)
      have hv := filter_departed voterIds
        fun id hid => hq id (mem_append_right _ hid)
      have hn := retain_departed (overlay s nodes voterIds) m
      simp only [applyMembership_fresh hr,applyMembership_fresh hr']
      simp only [dropNodes,hn]
      simp only [overlay] at ha hv ⊢
      rw [ha,hv]

theorem entryNodes_eq (s : ClusterState) (e : LogEntry) :
    entryNodes s s.nodes e = (applyLogEntry s e).nodes := by
  have hq : Quiet s s.nodes e := fun _ _ _ _ _ _ => Iff.rfl
  exact (congrArg ClusterState.nodes (applyLogEntry_overlay s.voterIds hq)).symm

theorem entryVoterIds_eq (s : ClusterState) (e : LogEntry) :
    entryVoterIds s s.voterIds e = (applyLogEntry s e).voterIds := by
  have hq : Quiet s s.nodes e := fun _ _ _ _ _ _ => Iff.rfl
  exact (congrArg ClusterState.voterIds (applyLogEntry_overlay s.voterIds hq)).symm

end LogApply
end PgBattery
