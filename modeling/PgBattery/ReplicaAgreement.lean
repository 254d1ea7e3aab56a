import PgBattery.LogApply

/-! Replicas whose node maps differ only by what their own configuration layered in. Applying the
same log keeps the rest of their states together as long as no membership entry drops, on one of
them only, a node that an upgrade or a voter intent still waits on. -/
namespace PgBattery
namespace ReplicaAgreement
open StateMachine OrderedMap LogApply List

structure Agree (s t : ClusterState) : Prop where
  cutover : s.cutover = t.cutover
  pgUpgrade : s.pgUpgrade = t.pgUpgrade
  voterIntent : s.voterIntent = t.voterIntent
  voterIds : s.voterIds = t.voterIds
  featureLevel : s.featureLevel = t.featureLevel
  lineage : s.lineage = t.lineage
  primaryTerm : s.primaryTerm = t.primaryTerm
  syncReplicationActive : s.syncReplicationActive = t.syncReplicationActive

def SameButNodes (s t : ClusterState) : Prop := t = overlay s t.nodes s.voterIds

/-- Every entry of the log is quiet where the two replicas apply it. -/
def QuietAlong : ClusterState → ClusterState → List LogEntry → Prop
  | _, _, [] => True
  | s, t, e::log => Quiet s t.nodes e ∧ QuietAlong (applyLogEntry s e) (applyLogEntry t e) log

variable {s t : ClusterState}

theorem SameButNodes.agree (h : SameButNodes s t) : Agree s t := by
  rw [h]
  constructor <;> rfl

theorem sameButNodes_overlay (s : ClusterState) (nodes : Std.ExtTreeMap NodeId NodeInfo) :
    SameButNodes s (overlay s nodes s.voterIds) := rfl

theorem sameButNodes_layered (s : ClusterState) (configured configured' : List PeerConfig) :
    SameButNodes (layerConfigured s configured) (layerConfigured s configured') := by
  unfold SameButNodes
  rw [layerConfigured_eq s configured,layerConfigured_eq s configured']
  rfl

theorem sameButNodes_applyLogEntry {e : LogEntry} (h : SameButNodes s t) (hq : Quiet s t.nodes e) :
    SameButNodes (applyLogEntry s e) (applyLogEntry t e) := by
  have hs := applyLogEntry_overlay s.voterIds hq
  rw [← h,entryVoterIds_eq] at hs
  rw [hs]
  exact sameButNodes_overlay _ _

theorem quiet_of_agree {e : LogEntry} (h : SameButNodes s t)
    (ha : Agree (applyLogEntry s e) (applyLogEntry t e)) : Quiet s t.nodes e := by
  intro m hp hr id hid hm
  have hrs : ¬ s.reflects e.index := by simpa using hr
  have hrt : ¬ t.reflects e.index := by
    rw [h]
    exact hrs
  have hu := ha.pgUpgrade
  have hv := ha.voterIntent
  simp only [applyLogEntry,hp,applyMembership_fresh hrs,applyMembership_fresh hrt,dropNodes,
    PgUpgradeState.mk.injEq] at hu hv
  have hme : ∀ ids : List NodeId, id ∈ ids →
      ids.filter (fun id => !departed s m id) = ids.filter (fun id => !departed t m id) →
      (id ∈ s.nodes ↔ id ∈ t.nodes) := by
    intro ids hid heq
    have hi : id ∈ ids.filter (fun id => !departed s m id) ↔
        id ∈ ids.filter (fun id => !departed t m id) := by rw [heq]
    simpa [mem_filter,hid,departed,hm,not_iff_not] using hi
  have hta : t.pgUpgrade.awaitingRejoin = s.pgUpgrade.awaitingRejoin := by rw [h]; rfl
  have htv : t.voterIntent = s.voterIntent := by rw [h]; rfl
  rcases mem_append.1 hid with hid | hid
  · exact hme _ hid (by rw [hu.2,hta])
  · exact hme _ hid (by rw [hv,htv])

theorem sameButNodes_applyLog {log : List LogEntry} (h : SameButNodes s t) (hq : QuietAlong s t log)
    : SameButNodes (applyLog s log) (applyLog t log) := by
  induction log generalizing s t with
  | nil => exact h
  | cons e log ih => exact ih (sameButNodes_applyLogEntry h hq.1) hq.2

theorem quietAlong_take {log : List LogEntry} (h : QuietAlong s t log) (n : ℕ) :
    QuietAlong s t (log.take n) := by
  induction log generalizing s t n with
  | nil => simpa using h
  | cons e log ih =>
    cases n with
    | zero => trivial
    | succ n => exact ⟨h.1,ih h.2 n⟩

theorem quietAlong_of_agree {log : List LogEntry} (h : SameButNodes s t)
    (ha : ∀ n, Agree (applyLog s (log.take n)) (applyLog t (log.take n))) : QuietAlong s t log := by
  induction log generalizing s t with
  | nil => trivial
  | cons e log ih =>
    have hq : Quiet s t.nodes e := quiet_of_agree h (by simpa [applyLog] using ha 1)
    refine ⟨hq,ih (sameButNodes_applyLogEntry h hq) ?_⟩
    intro n
    simpa [applyLog] using ha (n+1)

/-- Two replicas booted over the same state agree after every prefix of the log exactly when no
membership entry drops, on one of them only, an id that is still awaited. -/
theorem replicas_agree_iff_quiet (base : ClusterState) (configured configured' : List PeerConfig)
    (log : List LogEntry) :
    (∀ n, Agree (applyLog (layerConfigured base configured) (log.take n))
      (applyLog (layerConfigured base configured') (log.take n))) ↔
      QuietAlong (layerConfigured base configured) (layerConfigured base configured') log := by
  have h := sameButNodes_layered base configured configured'
  constructor
  · exact quietAlong_of_agree h
  · intro hq n
    exact (sameButNodes_applyLog h (quietAlong_take hq n)).agree

def peer (id : NodeId) : PeerConfig :=
  ⟨id,.v4 #v[10,0,0,1] 5432,.v4 #v[10,0,0,1] 5433,.v4 #v[10,0,0,1] 9091,.v4 #v[10,0,0,1] 9090⟩

/-- An upgrade freezes node 3, and a membership without node 3 commits. -/
def freezeThenShrink : List LogEntry :=
  [⟨0,1,1,.normal (.setFeatureLevel 1)⟩,⟨1,1,1,.normal (.pgUpgradeFreeze [3])⟩,
    ⟨2,1,1,.membership ⟨some 2,some 1,1,[[1,2]],[(1,"10.0.0.1:5433"),(2,"10.0.0.2:5433")]⟩⟩]

/-- The replica configured with node 3 stops waiting for it, the other one does not. -/
theorem configuration_leaks_into_awaiting :
    (applyLog (layerConfigured .new [peer 1,peer 2,peer 3]) freezeThenShrink).pgUpgrade =
        {frozen := true, awaitingRejoin := []} ∧
      (applyLog (layerConfigured .new [peer 2,peer 1]) freezeThenShrink).pgUpgrade =
        {frozen := true, awaitingRejoin := [3]} ∧
      ¬ Agree (applyLog (layerConfigured .new [peer 1,peer 2,peer 3]) freezeThenShrink)
        (applyLog (layerConfigured .new [peer 2,peer 1]) freezeThenShrink) := by
  have h₁ : (applyLog (layerConfigured .new [peer 1,peer 2,peer 3]) freezeThenShrink).pgUpgrade =
      {frozen := true, awaitingRejoin := []} := by decide
  have h₂ : (applyLog (layerConfigured .new [peer 2,peer 1]) freezeThenShrink).pgUpgrade =
      {frozen := true, awaitingRejoin := [3]} := by decide
  refine ⟨h₁,h₂,fun h => ?_⟩
  have hu := h.pgUpgrade
  rw [h₁,h₂] at hu
  cases hu

end ReplicaAgreement
end PgBattery
