import PgBattery.Commands

/-! The cutover protocol between two Raft groups that share no log. Each group applies its own
commands; authority is received only on an attestation of the other group's transfer, which may be
arbitrarily stale. -/
namespace PgBattery
namespace Cutover
open StateMachine TransitionSystem List

inductive Cluster
  | a | b
  deriving DecidableEq

def Cluster.other : Cluster → Cluster
  | .a => .b
  | .b => .a

@[simp] theorem other_other (c : Cluster) : c.other.other = c := by cases c <;> rfl
@[simp] theorem other_ne (c : Cluster) : c.other ≠ c := by cases c <;> decide
theorem eq_or_eq_other (c e : Cluster) : e = c ∨ e = c.other := by cases c <;> cases e <;> decide

structure Deployment where
  id : Cluster → String
  distinct : id .a ≠ id .b

theorem Deployment.id_other_ne (d : Deployment) (c : Cluster) : d.id c.other ≠ d.id c := by
  cases c
  · exact d.distinct.symm
  · exact d.distinct

structure World where
  now : Cluster → ClusterState
  history : List (Cluster → ClusterState)

inductive Event
  | command (c : Cluster) (cmd : ClusterCommand)
  | receive (c : Cluster) (epoch : U64)

/-- Commands a log proposes for itself: its own id as the local one, another as the target. -/
def own (id : String) : ClusterCommand → Bool
  | .cutoverArmed targetClusterId localClusterId =>
    localClusterId = id ∧ targetClusterId ≠ id
  | .cutoverTransfer targetClusterId _ _ => targetClusterId ≠ id
  | .cutoverAbortUnseal localClusterId => localClusterId = id
  | .nameCluster clusterId awaits => clusterId = id ∧ awaits ≠ some id
  | .cutoverAuthorityReceived .. => false
  | .addNode _ | .removeNode _ | .updateNode .. | .updateLsn .. | .setSyncMode _
  | .cutoverSeal _ | .pgUpgradeFreeze _ | .cutoverDrainObserved | .setFeatureLevel _
  | .cutoverSealing _ | .pgUpgradeServe _ | .pgUpgradeRejoined _ | .pgUpgradeAbort
  | .intendVoter _ | .setLineage _ | .primaryOpened _ => true

/-- The other log is transferred to `c` in `epoch` and has let go of the authority. -/
def attests (d : Deployment) (past : Cluster → ClusterState) (c : Cluster) (epoch : U64) : Prop :=
  (past c.other).cutover.phase = .transferred ∧ (past c.other).cutover.epoch = epoch ∧
    (past c.other).cutover.authorityClusterId = some (d.id c) ∧
    (past c.other).cutover.holdsClientWriteAuthority (d.id c.other) = false

instance (d : Deployment) (past : Cluster → ClusterState) (c : Cluster) (epoch : U64) :
    Decidable (attests d past c epoch) := by
  unfold attests
  infer_instance

def World.commit (w : World) (c : Cluster) (cmd : ClusterCommand) : World :=
  let now := Function.update w.now c ((w.now c).apply cmd).1
  ⟨now,now::w.history⟩

def step (d : Deployment) (w : World) : Event → Option World
  | .command c cmd => if own (d.id c) cmd then some (w.commit c cmd) else none
  | .receive c epoch =>
    if ∃ past ∈ w.history, attests d past c epoch then
      some (w.commit c (.cutoverAuthorityReceived epoch (d.id c.other) (d.id c)))
    else none

/-- `a` starts at the default authority under its name, `b` behind a boot fence awaiting `a`. -/
def start (d : Deployment) : Cluster → ClusterState
  | .a => {featureLevel := 1, cutover := (CutoverAuthorityState.name {} (d.id .a) none).1}
  | .b => {featureLevel := 1, cutover := (CutoverAuthorityState.name {} (d.id .b) (some (d.id .a))).1}

def World.init (d : Deployment) : World := ⟨start d,[start d]⟩

def World.holds (d : Deployment) (w : World) (c : Cluster) : Bool :=
  (w.now c).cutover.holdsClientWriteAuthority (d.id c)

def Inactive (id : String) (c : CutoverAuthorityState) : Prop :=
  c.holdsClientWriteAuthority id = false ∧
    (c.phase = .idle ∨ c.phase = .transferred ∨ c.phase = .aborted)

theorem apply_cutover (s : ClusterState) (cmd : ClusterCommand) :
    (s.apply cmd).1.cutover = s.cutover ∨
      (s.apply cmd).1.cutover = (s.cutover.applyCutover cmd).1 := by
  rcases s.apply_cases cmd with h | h
  · exact .inl (by rw [h])
  · exact .inr (by rw [h,ClusterState.after])

variable {epoch : U64} {cmd : ClusterCommand} {c : Cluster} {d : Deployment}
  {past : Cluster → ClusterState} {w : World}

theorem received_stale {c : CutoverAuthorityState} {donor id : String} (h : epoch ≤ c.epoch) :
    (c.applyCutover (.cutoverAuthorityReceived epoch donor id)).1 = c := by
  simp only [CutoverAuthorityState.applyCutover,if_pos h]

theorem received_fresh {c : CutoverAuthorityState} (donor id : String) (h : ¬ epoch ≤ c.epoch) :
    let r := (c.applyCutover (.cutoverAuthorityReceived epoch donor id)).1
    r.epoch = epoch ∧ r.phase = .transferred ∧ r.authorityClusterId = some id ∧
      r.clusterId = c.clusterId := by
  simp [CutoverAuthorityState.applyCutover,h]

theorem own_named_epoch {c : CutoverAuthorityState} {id : String} (hn : c.clusterId = some id)
    (ho : own id cmd) :
    (c.applyCutover cmd).1.clusterId = some id ∧ c.epoch ≤ (c.applyCutover cmd).1.epoch := by
  have hle := U64.le_saturatingAdd c.epoch 1
  cases cmd with
  | nameCluster clusterId awaits =>
    simp only [own,decide_eq_true_eq] at ho
    simp [CutoverAuthorityState.applyCutover,CutoverAuthorityState.name,hn,ho.1]
  | cutoverAbortUnseal localClusterId =>
    simp only [CutoverAuthorityState.applyCutover,CutoverAuthorityState.unsealAuthority]
    split <;> simp [hn,hle]
  | cutoverAuthorityReceived epoch donor localId => simp [own] at ho
  | _ =>
    simp only [CutoverAuthorityState.applyCutover]
    first
    | exact ⟨hn,le_rfl⟩
    | split <;> simp [hn,hle]

theorem own_inactive {c : CutoverAuthorityState} {id : String} (hn : c.clusterId = some id)
    (hi : Inactive id c) (ho : own id cmd) : (c.applyCutover cmd).1 = c := by
  obtain ⟨hh,hp⟩ := hi
  cases cmd with
  | cutoverArmed targetClusterId localClusterId =>
    simp only [own,decide_eq_true_eq] at ho
    have hm : c.mayArm localClusterId = false := by
      rw [ho.1,CutoverAuthorityState.mayArm]
      split <;> simp_all
    simp [CutoverAuthorityState.applyCutover,hm]
  | nameCluster clusterId awaits =>
    simp only [own,decide_eq_true_eq] at ho
    have hf : c.bootFenceMayLand = false := by
      rcases hp with hp | hp | hp
      · cases ha : c.authorityClusterId <;>
          simp_all [CutoverAuthorityState.bootFenceMayLand,
            CutoverAuthorityState.holdsClientWriteAuthority]
      · simp [CutoverAuthorityState.bootFenceMayLand,hp]
      · simp [CutoverAuthorityState.bootFenceMayLand,hp]
    simp only [CutoverAuthorityState.applyCutover,CutoverAuthorityState.name,hn,ho.1,hf]
    cases c
    simp_all
  | cutoverTransfer targetClusterId targetPgAddr forced =>
    rcases hp with hp | hp | hp <;> cases forced <;>
      simp [CutoverAuthorityState.applyCutover,CutoverAuthorityState.mayTransfer,hp]
  | cutoverAuthorityReceived epoch donor localId => simp [own] at ho
  | _ =>
    rcases hp with hp | hp | hp <;>
      simp [CutoverAuthorityState.applyCutover,CutoverAuthorityState.unsealAuthority,hp]

theorem attests_inactive (h : attests d past c epoch) :
    Inactive (d.id c.other) (past c.other).cutover :=
  ⟨h.2.2.2,.inr (.inl h.1)⟩

/-- Every attestation to `c` so far is one `c` has already outgrown. -/
def Outgrown (d : Deployment) (w : World) (c : Cluster) : Prop :=
  ∀ past ∈ w.history, ∀ epoch, attests d past c epoch → epoch ≤ (w.now c).cutover.epoch

/-- `c` alone may hold the authority, and no attestation can move it. -/
def Settled (d : Deployment) (w : World) (c : Cluster) : Prop :=
  Inactive (d.id c.other) (w.now c.other).cutover ∧ Outgrown d w c ∧ Outgrown d w c.other

/-- `c` let the authority go to the other log, which has not received it. -/
def InTransit (d : Deployment) (w : World) (c : Cluster) : Prop :=
  (∀ e, Inactive (d.id e) (w.now e).cutover) ∧ Outgrown d w c ∧
    ∀ past ∈ w.history, ∀ epoch, attests d past c.other epoch →
      epoch ≤ (w.now c.other).cutover.epoch ∨ epoch = (w.now c).cutover.epoch

structure Inv (d : Deployment) (w : World) : Prop where
  current : w.now ∈ w.history
  named : ∀ c, (w.now c).cutover.clusterId = some (d.id c)
  authority : ∃ c, Settled d w c ∨ InTransit d w c

@[simp] theorem commit_now_self (w : World) (c : Cluster) (cmd : ClusterCommand) :
    (w.commit c cmd).now c = ((w.now c).apply cmd).1 := by simp [World.commit]

@[simp] theorem commit_now_other (w : World) (c : Cluster) (cmd : ClusterCommand) :
    (w.commit c cmd).now c.other = w.now c.other := by simp [World.commit]

theorem mem_commit_history :
    past ∈ (w.commit c cmd).history ↔ past = (w.commit c cmd).now ∨ past ∈ w.history := by
  simp [World.commit]

theorem attests_congr {past' : Cluster → ClusterState}
    (h : (past c.other).cutover = (past' c.other).cutover) :
    attests d past c epoch ↔ attests d past' c epoch := by
  unfold attests
  rw [h]

theorem inv_commit_unchanged (hw : Inv d w)
    (hc : ((w.now c).apply cmd).1.cutover = (w.now c).cutover) : Inv d (w.commit c cmd) := by
  have heq : ∀ e, ((w.commit c cmd).now e).cutover = (w.now e).cutover := by
    intro e
    rcases eq_or_eq_other c e with rfl | rfl
    · rw [commit_now_self,hc]
    · rw [commit_now_other]
  have hold : ∀ past ∈ (w.commit c cmd).history, ∀ e epoch, attests d past e epoch →
      ∃ past' ∈ w.history, attests d past' e epoch := by
    intro past hp e epoch ha
    rcases mem_commit_history.1 hp with rfl | hp
    · exact ⟨w.now,hw.current,(attests_congr (heq _)).1 ha⟩
    · exact ⟨past,hp,ha⟩
  have hou : ∀ e, Outgrown d w e → Outgrown d (w.commit c cmd) e := by
    intro e ho past hp epoch ha
    obtain ⟨past',hp',ha'⟩ := hold past hp e epoch ha
    rw [heq]
    exact ho past' hp' epoch ha'
  obtain ⟨k,hk⟩ := hw.authority
  refine ⟨mem_commit_history.2 (.inl rfl),fun e => by rw [heq]; exact hw.named e,k,?_⟩
  rcases hk with ⟨hi,hk,hk'⟩ | ⟨hi,hk,ht⟩
  · exact .inl ⟨by rw [heq]; exact hi,hou _ hk,hou _ hk'⟩
  · refine .inr ⟨fun e => by rw [heq]; exact hi e,hou _ hk,?_⟩
    intro past hp epoch ha
    obtain ⟨past',hp',ha'⟩ := hold past hp _ epoch ha
    rw [heq,heq]
    exact ht past' hp' epoch ha'

theorem apply_own_inactive (hw : Inv d w) (hi : Inactive (d.id c) (w.now c).cutover)
    (ho : own (d.id c) cmd) : ((w.now c).apply cmd).1.cutover = (w.now c).cutover := by
  rcases apply_cutover (w.now c) cmd with h | h
  · exact h
  · rw [h,own_inactive (hw.named c) hi ho]

theorem apply_own_named_epoch (hw : Inv d w) (ho : own (d.id c) cmd) :
    ((w.now c).apply cmd).1.cutover.clusterId = some (d.id c) ∧
      (w.now c).cutover.epoch ≤ ((w.now c).apply cmd).1.cutover.epoch := by
  rcases apply_cutover (w.now c) cmd with h | h
  · rw [h]
    exact ⟨hw.named c,le_rfl⟩
  · rw [h]
    exact own_named_epoch (hw.named c) ho

theorem inv_commit_own (hw : Inv d w) (hs : Settled d w c) (ho : own (d.id c) cmd) :
    Inv d (w.commit c cmd) := by
  obtain ⟨hi,hc,hc'⟩ := hs
  obtain ⟨hn,hle⟩ := apply_own_named_epoch hw ho
  have hou : Outgrown d (w.commit c cmd) c := by
    intro past hp epoch ha
    rw [commit_now_self]
    rcases mem_commit_history.1 hp with rfl | hp
    · have ha' : attests d w.now c epoch := (attests_congr (by rw [commit_now_other])).1 ha
      exact (hc _ hw.current _ ha').trans hle
    · exact (hc past hp epoch ha).trans hle
  refine ⟨mem_commit_history.2 (.inl rfl),?_,c,?_⟩
  · intro e
    rcases eq_or_eq_other c e with rfl | rfl
    · rw [commit_now_self,hn]
    · rw [commit_now_other,hw.named]
  by_cases hx : ∃ epoch, attests d (w.commit c cmd).now c.other epoch
  · obtain ⟨epoch,hx⟩ := hx
    have hse := attests_inactive hx
    rw [other_other] at hse
    refine .inr ⟨?_,hou,?_⟩
    · intro e
      rcases eq_or_eq_other c e with rfl | rfl
      · exact hse
      · rwa [commit_now_other]
    · intro past hp epoch ha
      rcases mem_commit_history.1 hp with rfl | hp
      · have he := ha.2.1
        rw [other_other] at he
        exact .inr he.symm
      · rw [commit_now_other]
        exact .inl (hc' past hp epoch ha)
  · refine .inl ⟨by rwa [commit_now_other],hou,?_⟩
    intro past hp epoch ha
    rw [commit_now_other]
    rcases mem_commit_history.1 hp with rfl | hp
    · exact absurd ⟨epoch,ha⟩ hx
    · exact hc' past hp epoch ha

theorem inv_commit_received (hw : Inv d w) (ht : InTransit d w c.other)
    (hf : ¬ epoch ≤ (w.now c).cutover.epoch) (he : epoch = (w.now c.other).cutover.epoch)
    (hap : ((w.now c).apply (.cutoverAuthorityReceived epoch (d.id c.other) (d.id c))).1.cutover =
      ((w.now c).cutover.applyCutover
        (.cutoverAuthorityReceived epoch (d.id c.other) (d.id c))).1) :
    Inv d (w.commit c (.cutoverAuthorityReceived epoch (d.id c.other) (d.id c))) := by
  obtain ⟨hi,ho,ht⟩ := ht
  rw [other_other] at ht
  obtain ⟨hep,hph,hau,hcl⟩ := received_fresh (d.id c.other) (d.id c) hf
  rw [← hap] at hep hph hau hcl
  refine ⟨mem_commit_history.2 (.inl rfl),?_,c,.inl ⟨?_,?_,?_⟩⟩
  · intro e
    rcases eq_or_eq_other c e with rfl | rfl
    · rw [commit_now_self,hcl,hw.named]
    · rw [commit_now_other,hw.named]
  · rw [commit_now_other]
    exact hi _
  · intro past hp epoch' ha
    rw [commit_now_self,hep]
    have hb : epoch' ≤ (w.now c).cutover.epoch ∨ epoch' = (w.now c.other).cutover.epoch := by
      rcases mem_commit_history.1 hp with rfl | hp
      · exact ht _ hw.current _ ((attests_congr (by rw [commit_now_other])).1 ha)
      · exact ht past hp epoch' ha
    rcases hb with hb | hb
    · exact hb.trans (not_le.1 hf).le
    · rw [hb,he]
  · intro past hp epoch' ha
    rw [commit_now_other]
    rcases mem_commit_history.1 hp with rfl | hp
    · have hn := ha.2.2.1
      rw [other_other,commit_now_self,hau] at hn
      exact absurd (Option.some.inj hn).symm (d.id_other_ne c)
    · exact ho past hp epoch' ha

theorem inv_init (d : Deployment) : Inv d (World.init d) := by
  have hn : ∀ past ∈ (World.init d).history, ∀ c epoch, ¬ attests d past c epoch := by
    intro past hp c epoch ha
    rw [World.init,mem_singleton] at hp
    subst hp
    have hph := ha.1
    cases c <;>
      simp [Cluster.other,start,CutoverAuthorityState.name] at hph
  refine ⟨mem_singleton.2 rfl,?_,.a,.inl ⟨⟨?_,?_⟩,?_,?_⟩⟩
  · intro c
    cases c <;> simp [World.init,start,CutoverAuthorityState.name]
  · have hd := d.distinct
    simp [World.init,start,Cluster.other,CutoverAuthorityState.name,
      CutoverAuthorityState.bootFenceMayLand,CutoverAuthorityState.holdsClientWriteAuthority,hd]
  · left
    simp [World.init,start,Cluster.other,CutoverAuthorityState.name]
  · exact fun past hp epoch ha => absurd ha (hn past hp _ epoch)
  · exact fun past hp epoch ha => absurd ha (hn past hp _ epoch)

theorem inv_command (hw : Inv d w) (ho : own (d.id c) cmd) : Inv d (w.commit c cmd) := by
  obtain ⟨k,hk | hk⟩ := hw.authority
  · rcases eq_or_eq_other k c with rfl | rfl
    · exact inv_commit_own hw hk ho
    · exact inv_commit_unchanged hw (apply_own_inactive hw hk.1 ho)
  · exact inv_commit_unchanged hw (apply_own_inactive hw (hk.1 c) ho)

theorem inv_receive (hw : Inv d w) (hp : past ∈ w.history) (ha : attests d past c epoch) :
    Inv d (w.commit c (.cutoverAuthorityReceived epoch (d.id c.other) (d.id c))) := by
  rcases apply_cutover (w.now c) (.cutoverAuthorityReceived epoch (d.id c.other) (d.id c)) with
    hap | hap
  · exact inv_commit_unchanged hw hap
  have hs : epoch ≤ (w.now c).cutover.epoch →
      Inv d (w.commit c (.cutoverAuthorityReceived epoch (d.id c.other) (d.id c))) := by
    intro hle
    exact inv_commit_unchanged hw (by rw [hap,received_stale hle])
  obtain ⟨k,hk | hk⟩ := hw.authority
  · rcases eq_or_eq_other k c with rfl | rfl
    · exact hs (hk.2.1 past hp epoch ha)
    · exact hs (hk.2.2 past hp epoch ha)
  · rcases eq_or_eq_other k c with rfl | rfl
    · exact hs (hk.2.1 past hp epoch ha)
    · by_cases hle : epoch ≤ (w.now k.other).cutover.epoch
      · exact hs hle
      · rcases hk.2.2 past hp epoch ha with h | h
        · exact absurd h hle
        · refine inv_commit_received hw ?_ hle ?_ hap
          · rwa [other_other]
          · rwa [other_other]

theorem inv_step (w : World) (e : Event) (w' : World) (hw : Inv d w) (hs : step d w e = some w') :
    Inv d w' := by
  cases e with
  | command c cmd =>
    rw [step,Option.ite_none_right_eq_some] at hs
    obtain ⟨ho,h⟩ := hs
    cases h
    exact inv_command hw ho
  | receive c epoch =>
    rw [step,Option.ite_none_right_eq_some] at hs
    obtain ⟨⟨past,hp,ha⟩,h⟩ := hs
    cases h
    exact inv_receive hw hp ha

theorem inv_run {events : List Event} (hr : run (step d) (World.init d) events = some w) :
    Inv d w :=
  run_invariant inv_step (inv_init d) hr

/-- At every moment of every interleaving at most one of the two logs holds the authority. -/
theorem single_write_authority (d : Deployment) (events : List Event) (w : World)
    (hrun : run (step d) (World.init d) events = some w) :
    ¬ (w.holds d .a ∧ w.holds d .b) := by
  intro ⟨ha,hb⟩
  have hal : ∀ c, w.holds d c := by
    intro c
    cases c
    · exact ha
    · exact hb
  obtain ⟨k,hk | hk⟩ := (inv_run hrun).authority
  · have hf := hk.1.1
    rw [← World.holds,hal] at hf
    cases hf
  · have hf := (hk.1 k).1
    rw [← World.holds,hal] at hf
    cases hf

def blueGreen : Deployment where
  id
    | .a => "blue"
    | .b => "green"
  distinct := by decide

def handoff : List Event :=
  [.command .a (.cutoverArmed "green" "blue"),.command .a (.cutoverSealing ["app"]),
    .command .a (.cutoverSeal 7),.command .a .cutoverDrainObserved,
    .command .a (.cutoverTransfer "green" "10.0.0.9:5432" false),.receive .b 1,.receive .b 1]

theorem single_write_authority_handoff :
    ∃ w, run (step blueGreen) (World.init blueGreen) handoff = some w ∧
      w.holds blueGreen .b ∧ ¬ (w.holds blueGreen .a ∧ w.holds blueGreen .b) := by
  have hs : ((run (step blueGreen) (World.init blueGreen) handoff).map
      fun w => w.holds blueGreen .b) = some true := by decide
  obtain ⟨w,hw,hb⟩ := Option.map_eq_some_iff.1 hs
  exact ⟨w,hw,hb,single_write_authority blueGreen handoff w hw⟩

end Cutover
end PgBattery
