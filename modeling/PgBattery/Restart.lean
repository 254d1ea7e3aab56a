import PgBattery.ExactlyOnce
import PgBattery.ReplicaAgreement

/-! A node that starts from an empty store recovers, after every crash, the state that applying
each committed entry once and in order gives, up to its node map and its voter ids. -/
namespace PgBattery
namespace Restart
open StateMachine LogApply Layout Postcard Storage AbstractStore LogStore Snapshot Recovery List
open ExactlyOnce TransitionSystem OrderedMap
open ReplicaAgreement (peer)

/-- The fields a recovered state shares with the reference. -/
structure Agrees (s t : ClusterState) : Prop where
  cutover : s.cutover = t.cutover
  pgUpgrade : s.pgUpgrade = t.pgUpgrade
  featureLevel : s.featureLevel = t.featureLevel
  lineage : s.lineage = t.lineage
  primaryTerm : s.primaryTerm = t.primaryTerm
  syncReplicationActive : s.syncReplicationActive = t.syncReplicationActive
  appliedIndex : s.appliedIndex = t.appliedIndex

structure Between (ids : List NodeId) (inner outer : Std.ExtTreeMap NodeId NodeInfo) : Prop where
  mem : ∀ id, id ∈ inner → id ∈ outer
  same : ∀ id, id ∉ ids → outer[id]? = inner[id]?

section Between
variable {ids : List NodeId} {inner outer : Std.ExtTreeMap NodeId NodeInfo}

theorem Between.refl (ids : List NodeId) (nodes : Std.ExtTreeMap NodeId NodeInfo) :
    Between ids nodes nodes := ⟨fun _ h => h,fun _ _ => rfl⟩

theorem Between.trans {between : Std.ExtTreeMap NodeId NodeInfo} (h : Between ids inner between)
    (h' : Between ids between outer) : Between ids inner outer :=
  ⟨fun id hid => h'.mem id (h.mem id hid),fun id hid => (h'.same id hid).trans (h.same id hid)⟩

theorem Between.mem_or (h : Between ids inner outer) {id : NodeId} (hid : id ∈ outer) :
    id ∈ inner ∨ id ∈ ids := by
  by_cases hi : id ∈ ids
  · exact .inr hi
  · rw [mem_iff_getElem?_ne_none,h.same id hi,← mem_iff_getElem?_ne_none] at hid
    exact .inl hid

theorem Between.insert (h : Between ids inner outer) (id : NodeId) (info : NodeInfo) :
    Between ids (inner.insert id info) (outer.insert id info) := by
  refine ⟨fun x hx => ?_,fun x hx => ?_⟩
  · rw [Std.ExtTreeMap.mem_insert] at hx ⊢
    exact hx.imp_right (h.mem x)
  · rw [Std.ExtTreeMap.getElem?_insert,Std.ExtTreeMap.getElem?_insert,h.same x hx]

theorem Between.erase (h : Between ids inner outer) (id : NodeId) :
    Between ids (inner.erase id) (outer.erase id) := by
  refine ⟨fun x hx => ?_,fun x hx => ?_⟩
  · rw [Std.ExtTreeMap.mem_erase] at hx ⊢
    exact hx.imp_right (h.mem x)
  · rw [Std.ExtTreeMap.getElem?_erase,Std.ExtTreeMap.getElem?_erase,h.same x hx]

theorem mem_retain {nodes : Std.ExtTreeMap NodeId NodeInfo} {p : NodeId → Bool} {id : NodeId} :
    id ∈ retain nodes p ↔ p id ∧ id ∈ nodes := by
  rw [mem_iff_getElem?_ne_none,mem_iff_getElem?_ne_none,getElem?_retain]
  cases p id <;> simp

theorem Between.retain (h : Between ids inner outer) (p : NodeId → Bool) :
    Between ids (retain inner p) (retain outer p) := by
  refine ⟨fun x hx => ?_,fun x hx => ?_⟩
  · rw [mem_retain] at hx ⊢
    exact hx.imp_right (h.mem x)
  · rw [getElem?_retain,getElem?_retain,h.same x hx]

theorem getElem?_updateNode (nodes : Std.ExtTreeMap NodeId NodeInfo) (id x : NodeId)
    (role : NodeRole) : (nodesAfter nodes (.updateNode id role))[x]? =
      if x = id then nodes[x]?.map (fun node : NodeInfo => {node with role := role}) else nodes[x]? := by
  rw [nodesAfter]
  by_cases hx : x = id
  · subst hx
    cases hn : nodes[x]? with
    | none => simp [hn]
    | some node => simp
  · cases hn : nodes[id]? with
    | none => simp [hx]
    | some node => simp [Std.ExtTreeMap.getElem?_insert,hx,Ne.symm hx]

theorem Between.updateNode (h : Between ids inner outer) (id : NodeId) (role : NodeRole) :
    Between ids (nodesAfter inner (.updateNode id role))
      (nodesAfter outer (.updateNode id role)) := by
  have hm : ∀ (nodes : Std.ExtTreeMap NodeId NodeInfo) (x : NodeId),
      x ∈ nodesAfter nodes (.updateNode id role) ↔ x ∈ nodes := by
    intro nodes x
    rw [mem_iff_getElem?_ne_none,mem_iff_getElem?_ne_none,getElem?_updateNode]
    split <;> simp
  refine ⟨fun x hx => (hm outer x).2 (h.mem x ((hm inner x).1 hx)),fun x hx => ?_⟩
  rw [getElem?_updateNode,getElem?_updateNode,h.same x hx]

theorem Between.nodesAfter (h : Between ids inner outer) (cmd : ClusterCommand) :
    Between ids (nodesAfter inner cmd) (nodesAfter outer cmd) := by
  cases cmd with
  | addNode info => exact h.insert info.id info
  | removeNode id => exact h.erase id
  | updateNode id role => exact h.updateNode id role
  | _ => exact h

theorem Between.entryNodes {s : ClusterState} (h : Between ids s.nodes outer) (e : LogEntry) :
    Between ids (applyLogEntry s e).nodes (entryNodes s outer e) := by
  rw [← entryNodes_eq,LogApply.entryNodes,LogApply.entryNodes]
  split
  · exact h
  · cases e.payload with
    | blank => exact h
    | normal cmd =>
      simp only
      split
      · exact h.nodesAfter cmd
      · exact h
    | membership m => exact h.retain _

end Between

def configuredIds (configured : List PeerConfig) : List NodeId := configured.map PeerConfig.id

/-- The node's state is the reference's, but for the records of configured nodes, which it may have
besides, and for the voter ids where the metrics watcher writes them. -/
def Overlaid (watches : Bool) (configured : List PeerConfig) (r s : ClusterState) : Prop :=
  ∃ nodes voterIds, s = overlay r nodes voterIds ∧
    Between (configuredIds configured) r.nodes nodes ∧ (watches = false → voterIds = r.voterIds)

/-- No membership leaves out an awaited node that is configured and that the reference, which starts
from `base`, does not have. -/
def ConfiguredQuiet (configured : List PeerConfig) (base : ClusterState) (log : CommittedLog) :
    Prop :=
  ∀ k e m, log.get k = some e → e.payload = .membership m →
    ∀ id ∈ awaited (exactlyOnce base log k), id ∉ memberIds m → id ∈ configuredIds configured →
      id ∈ (exactlyOnce base log k).nodes

theorem between_layerConfigured (s : ClusterState) (configured : List PeerConfig) {ids : List NodeId}
    (h : ∀ p ∈ configured, p.id ∈ ids) : Between ids s.nodes (layerConfigured s configured).nodes := by
  induction configured generalizing s with
  | nil => exact Between.refl _ _
  | cons p configured ih =>
    have hr := ih (s.apply (.addNode p.nodeInfo)).1 fun q hq => h q (mem_cons_of_mem _ hq)
    rw [layerConfigured,foldl_cons,← layerConfigured]
    rw [apply_addNode] at hr ⊢
    refine Between.trans ⟨fun id hid => by simp [hid],fun id hid => ?_⟩ hr
    have hne : p.nodeInfo.id ≠ id := fun he => hid (he ▸ h p mem_cons_self)
    simp [Std.ExtTreeMap.getElem?_insert,hne]

theorem Overlaid.layered {watches : Bool} {configured : List PeerConfig} {r s : ClusterState}
    (h : Overlaid watches configured r s) : Overlaid watches configured r (layerConfigured s configured) := by
  obtain ⟨nodes,voterIds,rfl,hb,hv⟩ := h
  refine ⟨_,_,layerConfigured_eq _ _,hb.trans ?_,hv⟩
  exact between_layerConfigured (overlay r nodes voterIds) configured fun p hp => mem_map_of_mem hp

theorem Overlaid.refl (watches : Bool) (configured : List PeerConfig) (s : ClusterState) :
    Overlaid watches configured s s := ⟨s.nodes,s.voterIds,rfl,Between.refl _ _,fun _ => rfl⟩

theorem simulation_overlaid (π : Platform) (watches : Bool) {configured : List PeerConfig}
    {log : CommittedLog} {base : ClusterState} (hf : log.first ≤ Recovery.count base.appliedIndex)
    (hq : ConfiguredQuiet configured base log) :
    Simulation ⟨π,configured,watches⟩ log base (Overlaid watches configured) where
  started := hf
  applied := by
    rintro r s ⟨nodes,voterIds,rfl,_⟩
    rfl
  entry := by
    rintro k e s he ⟨nodes,voterIds,rfl,hb,hv⟩
    have hqu : Quiet (exactlyOnce base log k) nodes e := by
      intro m hp _ id hid hm
      refine ⟨hb.mem id,fun hn => (hb.mem_or hn).elim (fun h => h) ?_⟩
      exact hq k e m he hp id hid hm
    rw [exactlyOnce_succ he]
    refine ⟨_,_,applyLogEntry_overlay voterIds hqu,hb.entryNodes e,fun hw => ?_⟩
    rw [hv hw,entryVoterIds_eq]
  layered _ _ h := h.layered
  voterIds := by
    rintro r s ids hw ⟨nodes,voterIds,rfl,hb,_⟩
    exact ⟨nodes,ids,rfl,hb,fun hf => by simp [hf] at hw⟩

def soleVoter : JointMembership :=
  .new [[1]] (Std.ExtTreeMap.ofList [((1 : NodeId),"10.0.0.1:5433")])

/-- Memberships without node 2 before and after a freeze that awaits it. -/
def frozenOut : CommittedLog where
  first := 0
  entries :=
    [⟨⟨1,1,0⟩,.membership soleVoter⟩,⟨⟨1,1,1⟩,.normal (.setFeatureLevel 1)⟩,
      ⟨⟨1,1,2⟩,.normal (.pgUpgradeFreeze [2])⟩,⟨⟨1,1,3⟩,.membership soleVoter⟩]
  indexed := by
    rintro (_|_|_|_|i) e h
    · cases h; rfl
    · cases h; rfl
    · cases h; rfl
    · cases h; rfl
    · cases h
  bounded := by decide

def frozen : List Step :=
  [.restart,.append frozenOut.entries,.commit,.commit,.commit,.beginApply 3,.applyNext,
    .persistMembership,.applyNext,.applyNext,.finishBatch,.readPosition,.capture,.saveSnapshot]

def upgradeAfter (steps : List Step) : Option PgUpgradeState := do
  let db ← (ensureSchemaVersion id Db.fresh).toOption
  let n ← run (step ⟨⟨id,fun _ => ""⟩,[peer 1,peer 2],true⟩ frozenOut) ⟨db,0,none⟩ steps
  let p ← n.process
  if p.batch = none ∧ p.next = n.committed then some p.state.pgUpgrade else none

end Restart
end PgBattery
