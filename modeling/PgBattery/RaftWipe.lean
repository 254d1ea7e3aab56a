import PgBattery.StateMachine
import PgBattery.ReplicatedLog
import PgBattery.TransitionSystem

/-! A node that starts again with Raft state of its own asks one peer whether it is still a member, and
wipes that state when it is told that it is not. -/
namespace PgBattery
namespace RaftWipe
open StateMachine ReplicatedLog TransitionSystem List

structure Membership where
  voters : List NodeId
  learners : List NodeId
  deriving DecidableEq

/-- `get_current_members`. -/
def Membership.members (m : Membership) : List NodeId := m.voters++m.learners

inductive Entry
  | membership (m : Membership)
  | command (cmd : ClusterCommand)
  deriving DecidableEq

def Entry.membershipAfter (m : Membership) : Entry → Membership
  | .membership m' => m'
  | .command _ => m

def membershipOf (log : List Entry) : Membership := log.foldl Entry.membershipAfter ⟨[],[]⟩

def Entry.lists (node : NodeId) : Entry → Bool
  | .membership m => node ∈ m.members
  | .command _ => false

def peerSpeaksForLineage (localLineage peer : Option U64) : Bool :=
  match localLineage,peer with
  | some localLineage,some peer => localLineage = peer
  | _,_ => true

/-- Who answers at an address: the node, from its log, or a cluster bootstrapped anew under the node's
identity. -/
inductive Peer
  | node
  | bootstrapped (m : Membership)
  deriving DecidableEq

/-- Where `run_join_flow` stands. `source` is the log the answer came from, if it came from one. -/
inductive Flow
  | idle
  | told (peer : NodeId) (source : Option (List Entry))
  | wiping (source : Option (List Entry))
  deriving DecidableEq

def Flow.source : Flow → Option (List Entry)
  | .told _ source | .wiping source => source
  | .idle => none

structure World where
  replicas : Replicas NodeId Entry
  peers : NodeId → Peer
  lineage : NodeId → Option U64
  raftState : Bool := true
  flow : Flow := .idle

inductive Event
  | raft (change : Change NodeId)
  | append (n : NodeId) (e : Entry)
  | bootstrap (peer : NodeId) (m : Membership) (lineage : Option U64)
  | ask (peer : NodeId)
  | compare (readLocal readPeer : Bool)
  | wipe
  | resume

/-- What the peer's `members` answer says, and the log it says it from. -/
def World.answer (w : World) (peer : NodeId) : Membership × Option (List Entry) :=
  match w.peers peer with
  | .node => (membershipOf (w.replicas.log peer),some (w.replicas.log peer))
  | .bootstrapped m => (m,none)

def World.peerSpeaksForOurCluster (w : World) (self peer : NodeId) (readLocal readPeer : Bool) : Bool :=
  peerSpeaksForLineage (if readLocal then w.lineage self else none)
    (if readPeer then w.lineage peer else none)

/-- The join flow of the node `self`, among the changes of the cluster's log. -/
def step (self : NodeId) (w : World) : Event → Option World
  | .raft change => (w.replicas.change change).map fun replicas => {w with replicas}
  | .append n e => (w.replicas.append n e).map fun replicas => {w with replicas}
  | .bootstrap peer m lineage =>
    some {w with
      peers := Function.update w.peers peer (.bootstrapped m),
      lineage := Function.update w.lineage peer lineage}
  | .ask peer =>
    if w.raftState ∧ w.flow = .idle then
      some {w with flow :=
        if self ∈ (w.answer peer).1.members then .idle else .told peer (w.answer peer).2}
    else none
  | .compare readLocal readPeer =>
    match w.flow with
    | .told peer source =>
      some {w with flow :=
        if w.peerSpeaksForOurCluster self peer readLocal readPeer then .wiping source else .idle}
    | _ => none
  | .wipe =>
    match w.flow with
    | .wiping _ => some {w with raftState := false, flow := .idle}
    | _ => none
  | .resume => some {w with flow := .idle}

/-- Raft state is wiped only while the latest committed membership does not list the node. -/
def safe (self : NodeId) (w : World) : Event → Prop
  | .wipe => ∀ source, w.flow = .wiping source → self ∉ (membershipOf w.replicas.committed).members
  | _ => True

/-- The answer came from a log that is committed by now, and no membership committed after it lists the
node. -/
def current (self : NodeId) (committed : List Entry) : Flow → Bool
  | .wiping (some log) => log <+: committed && (committed.drop log.length).all (!·.lists self)
  | .wiping none => false
  | .idle | .told .. => true

def meets (self : NodeId) (w : World) : Event → Prop
  | .wipe => current self w.replicas.committed w.flow = true
  | _ => True

/-- What the node was told was true of the log it was told from. -/
def Inv (self : NodeId) (w : World) : Prop :=
  ∀ log, w.flow.source = some log → self ∉ (membershipOf log).members

variable {self : NodeId} {w w' : World} {e : Event}

theorem membershipOf_append (log rest : List Entry) :
    membershipOf (log++rest) = rest.foldl Entry.membershipAfter (membershipOf log) :=
  foldl_append

theorem notMem_foldl {m : Membership} {rest : List Entry} (hm : self ∉ m.members)
    (hr : rest.all (!·.lists self)) :
    self ∉ (rest.foldl Entry.membershipAfter m).members := by
  induction rest generalizing m with
  | nil => exact hm
  | cons e rest ih =>
    obtain ⟨he,hr⟩ := all_cons ▸ hr |> Bool.and_eq_true_iff.1
    refine ih ?_ hr
    cases e with
    | membership m' =>
      change self ∉ m'.members
      simpa [Entry.lists] using he
    | command cmd => exact hm

theorem answer_of_source {peer : NodeId} {log : List Entry} (h : (w.answer peer).2 = some log) :
    (w.answer peer).1 = membershipOf log := by
  rw [World.answer] at h ⊢
  cases hp : w.peers peer with
  | node =>
    rw [hp] at h
    cases h
    rfl
  | bootstrapped m =>
    rw [hp] at h
    cases h

theorem inv_step (h : Inv self w) (hs : step self w e = some w') : Inv self w' := by
  cases e with
  | raft change =>
    obtain ⟨replicas,_,rfl⟩ := Option.map_eq_some_iff.1 hs
    exact h
  | append n e =>
    obtain ⟨replicas,_,rfl⟩ := Option.map_eq_some_iff.1 hs
    exact h
  | bootstrap peer m lineage =>
    cases hs
    exact h
  | ask peer =>
    obtain ⟨_,⟨⟩⟩ := Option.ite_none_right_eq_some.1 hs
    intro log hl
    dsimp only at hl
    split at hl
    · cases hl
    · next hn => rwa [answer_of_source hl] at hn
  | compare readLocal readPeer =>
    rw [step] at hs
    split at hs
    · next peer source hf =>
      cases hs
      intro log hl
      refine h log ?_
      dsimp only at hl
      rw [hf]
      split at hl
      · exact hl
      · cases hl
    · cases hs
  | wipe =>
    rw [step] at hs
    split at hs
    · cases hs
      exact fun log hl => by cases hl
    · cases hs
  | resume =>
    cases hs
    exact fun log hl => by cases hl

theorem safe_of_meets (h : Inv self w) (hm : meets self w e) : safe self w e := by
  cases e with
  | wipe =>
    intro source hf
    change current self w.replicas.committed w.flow = true at hm
    rw [hf] at hm
    cases source with
    | none => cases hm
    | some log =>
      obtain ⟨hc,hr⟩ := Bool.and_eq_true_iff.1 hm
      obtain ⟨rest,hl⟩ := of_decide_eq_true hc
      have hn := h log (by rw [hf]; rfl)
      rw [← hl,drop_left] at hr
      rw [← hl,membershipOf_append]
      exact notMem_foldl hn hr
  | _ => trivial

/-- A node told by the cluster's own committed log, with no membership committed since that lists it, is
not a member when it wipes. -/
theorem wipe_only_non_member (self : NodeId) (replicas : Replicas NodeId Entry) (peers : NodeId → Peer)
    (lineage : NodeId → Option U64) (events : List Event)
    (hmeets : Guarded (step self) (meets self) {replicas, peers, lineage} events) :
    Guarded (step self) (safe self) {replicas, peers, lineage} events := by
  refine hmeets.imp (fun _ _ _ hi _ hs => inv_step hi hs) (fun _ _ hi hg => safe_of_meets hi hg) ?_
  exact fun log hl => by cases hl

section Runs

def removed : List Entry :=
  [.membership ⟨[1,2,3,4],[]⟩,.membership ⟨[1,2,4],[]⟩]

def cluster : Replicas NodeId Entry where
  log _ := removed
  committed := removed
  applied _ := 2
  leader := 1
  leads n := n = 1

def askAndWipe : List Event := [.ask 2,.compare true true,.wipe]

instance instDecidableMeets (self : NodeId) (w : World) (e : Event) : Decidable (meets self w e) := by
  unfold meets
  split <;> infer_instance

theorem wipe_only_non_member_removed :
    (run (step 3) {replicas := cluster, peers := fun _ => .node, lineage := fun _ => some 7}
      askAndWipe).any (fun w => !w.raftState) = true ∧
    Guarded (step 3) (safe 3)
      {replicas := cluster, peers := fun _ => .node, lineage := fun _ => some 7} askAndWipe := by
  have hm : Guarded (step 3) (meets 3)
      {replicas := cluster, peers := fun _ => .node, lineage := fun _ => some 7} askAndWipe := by
    decide +kernel
  exact ⟨by decide +kernel,wipe_only_non_member 3 _ _ _ askAndWipe hm⟩

def stale : World where
  replicas := cluster
  peers _ := .node
  lineage _ := some 7

def staleRun : List Event :=
  [.append 1 (.membership ⟨[1,2,3,4],[]⟩),.raft (.replicate 3 3),.raft (.replicate 4 3),.raft (.commit 3),
    .ask 2,.compare true true]

/-- A member's address answers for a cluster bootstrapped anew, and no lineage is known. -/
def bootstrappedRun : List Event :=
  [.append 1 (.membership ⟨[1,2,3,4],[]⟩),.raft (.replicate 2 3),.raft (.replicate 3 3),.raft (.commit 3),
    .bootstrap 2 ⟨[2],[]⟩ none,.ask 2,.compare true true]

/-- The node is about to wipe, and the committed membership has it as a voter. -/
def endangered (w : World) : Bool :=
  (match w.flow with
    | .wiping _ => true
    | _ => false) && (membershipOf w.replicas.committed).voters.contains 3

theorem not_safe_of_endangered (h : endangered w) :
    3 ∈ (membershipOf w.replicas.committed).voters ∧ ¬safe 3 w .wipe := by
  obtain ⟨hf,hv⟩ := Bool.and_eq_true_iff.1 h
  have hv := List.contains_iff_mem.1 hv
  refine ⟨hv,fun hs => ?_⟩
  split at hf
  · next source hw => exact hs source hw (mem_append_left _ hv)
  · cases hf

theorem wipe_of_voter : [staleRun,bootstrappedRun].Forall fun events => ∃ w,
    run (step 3) stale events = some w ∧ 3 ∈ (membershipOf w.replicas.committed).voters ∧
    ¬safe 3 w .wipe := by
  have hr : [staleRun,bootstrappedRun].all (fun events =>
      (run (step 3) stale events).any endangered) := by decide +kernel
  rw [forall_iff_forall_mem]
  intro events hev
  obtain ⟨w,hw,he⟩ := (Option.any_eq_true _ _).1 (all_eq_true.1 hr events hev)
  exact ⟨w,hw,not_safe_of_endangered he⟩

end Runs
end RaftWipe
end PgBattery
