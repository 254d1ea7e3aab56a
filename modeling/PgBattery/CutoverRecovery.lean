import PgBattery.CommittedFacts
import PgBattery.Cutover
import PgBattery.CutoverRecord

/-! The authority to write is not lost between two clusters: wherever a cutover stops, one event of one
of them brings it back. -/
namespace PgBattery
namespace CutoverRecovery
open StateMachine CutoverAuthorityState TransitionSystem Cutover CutoverRecord

/-- A transfer names the other log and finds an epoch left for it, and no boot fence lands on a log that
has its authority by default. -/
def paired (d : Deployment) (w : World) : Event → Bool
  | .command c (.cutoverTransfer targetClusterId _ _) =>
    targetClusterId = d.id c.other ∧ (w.now c).cutover.epoch < U64.max
  | .command c (.nameCluster _ awaits) => !(awaits.isSome && (w.now c).cutover.bootFenceMayLand)
  | .command _ _ | .receive _ _ => true

/-- A log holds the authority, or takes it back by an abort, or takes it by receiving what the other
log has transferred. -/
def Recoverable (d : Deployment) (w : World) : Prop :=
  ∃ c, w.holds d c ∨
    ∃ e ∈ [.command c (.cutoverAbortUnseal (d.id c)),.receive c (w.now c.other).cutover.epoch],
      ∃ w' ∈ step d w e, w'.holds d c

def Held (id : String) (c : CutoverAuthorityState) : Prop :=
  c.holdsClientWriteAuthority id ∨ c.phase = .sealing ∨ c.phase = .sealed ∨ c.phase = .draining

/-- The log has kept the authority, or has given it in an epoch that the other log has not reached. -/
def Live (d : Deployment) (w : World) (k : Cluster) : Prop :=
  Held (d.id k) (w.now k).cutover ∧ (w.now k.other).cutover.epoch ≤ (w.now k).cutover.epoch ∨
    attests d w.now k.other (w.now k).cutover.epoch ∧
      (w.now k.other).cutover.epoch < (w.now k).cutover.epoch

variable {d : Deployment} {w : World} {k : Cluster} {cmd : ClusterCommand}

theorem holds_of_authority {id : String} {c : CutoverAuthorityState} (hn : c.clusterId = some id)
    (ha : c.authorityClusterId = some id)
    (hp : c.phase = .armed ∨ c.phase = .transferred ∨ c.phase = .aborted) :
    c.holdsClientWriteAuthority id := by
  rcases hp with hp | hp | hp <;> simp [holdsClientWriteAuthority,hn,ha,hp]

theorem live_moves (hw : Inv d w) (hh : Held (d.id k) (w.now k).cutover)
    (hle : (w.now k.other).cutover.epoch ≤ (w.now k).cutover.epoch) (ho : own (d.id k) cmd)
    (hp : paired d w (.command k cmd))
    (hm : Moves (w.now k).cutover cmd ((w.now k).apply cmd).1.cutover) : Live d (w.commit k cmd) k := by
  have hn := hw.named k
  have he := hle.trans (epoch_le_of_moves hm)
  simp only [Live,attests,other_other,commit_now_self,commit_now_other]
  generalize ((w.now k).apply cmd).1.cutover = c at hm he ⊢
  cases hm with
  | armed =>
    obtain ⟨rfl,-⟩ := of_decide_eq_true ho
    exact .inl ⟨.inl (holds_of_authority hn rfl (.inl rfl)),he⟩
  | sealing => exact .inl ⟨.inr (.inl rfl),he⟩
  | sealed => exact .inl ⟨.inr (.inr (.inl rfl)),he⟩
  | drained => exact .inl ⟨.inr (.inr (.inr rfl)),he⟩
  | transferred =>
    obtain ⟨rfl,hlt⟩ := of_decide_eq_true hp
    exact .inr ⟨⟨rfl,trivial,rfl,by simp [holdsClientWriteAuthority,d.id_other_ne]⟩,
      hle.trans_lt (U64.lt_saturatingAdd_one hlt.ne)⟩
  | aborted =>
    obtain rfl := of_decide_eq_true ho
    exact .inl ⟨.inl (holds_of_authority hn rfl (.inr (.inr rfl))),he⟩
  | received => cases ho
  | named =>
    obtain ⟨rfl,-⟩ := of_decide_eq_true ho
    rw [if_neg (ne_true_of_eq_false ((Bool.not_eq_true' _).mp hp)),← hn]
    exact .inl ⟨hh,he⟩

theorem Live.inactive_other (hw : Inv d w) (h : Live d w k) :
    Inactive (d.id k.other) (w.now k.other).cutover := by
  obtain ⟨c,hc⟩ := hw.authority
  rcases eq_or_eq_other c k with rfl | rfl
  · exact hc.elim (·.1) (·.1 _)
  rw [other_other]
  rcases hc with ⟨⟨hn,hp⟩,hc,-⟩ | hc
  · rcases h with ⟨hh | hh,-⟩ | ⟨ha,hlt⟩
    · simp [hn] at hh
    · rcases hp with hp | hp | hp <;> simp [hp] at hh
    · rw [other_other] at ha hlt
      exact absurd hlt (not_lt.2 (hc _ hw.current _ ha))
  · exact hc.1 _

theorem epoch_of_fresh {past : Cluster → ClusterState} {epoch : U64} (hw : Inv d w)
    (hp : past ∈ w.history) (ha : attests d past k epoch) (hf : (w.now k).cutover.epoch < epoch) :
    (w.now k.other).cutover.epoch = epoch := by
  obtain ⟨c,hc | hc⟩ := hw.authority <;> rcases eq_or_eq_other c k with rfl | rfl
  · exact absurd (hc.2.1 past hp epoch ha) (not_le.2 hf)
  · exact absurd (hc.2.2 past hp epoch ha) (not_le.2 hf)
  · exact absurd (hc.2.1 past hp epoch ha) (not_le.2 hf)
  · rw [other_other]
    exact ((hc.2.2 past hp epoch ha).resolve_left (not_le.2 hf)).symm

/-- The feature level that admits the cutover commands is never lost either. -/
structure Safe (d : Deployment) (w : World) : Prop where
  inv : Inv d w
  level : ∀ c, 1 ≤ (w.now c).featureLevel
  live : ∃ k, Live d w k

theorem safe_step (w : World) (e : Event) (w' : World) (h : Safe d w) (hp : paired d w e)
    (hs : step d w e = some w') : Safe d w' := by
  obtain ⟨hw,hf,k,hl⟩ := h
  have hv : ∀ {c cmd} e, 1 ≤ ((w.commit c cmd).now e).featureLevel := by
    intro c cmd e
    rcases eq_or_eq_other c e with rfl | rfl
    · rw [commit_now_self]
      rcases (w.now e).apply_cases cmd with ha | ha <;> rw [ha]
      · exact hf e
      · exact (hf e).trans (CommittedFacts.levelAfter_ge _ _)
    · simpa using hf _
  have hu : ∀ {c cmd}, ((w.now c).apply cmd).1.cutover = (w.now c).cutover →
      ∃ k, Live d (w.commit c cmd) k := by
    intro c cmd heq
    have hc : ∀ e, ((w.commit c cmd).now e).cutover = (w.now e).cutover := by
      intro e
      rcases eq_or_eq_other c e with rfl | rfl <;> simp [heq]
    exact ⟨k,by simpa only [Live,attests,hc] using hl⟩
  refine ⟨inv_step w e w' hw hs,?_,?_⟩ <;>
    cases e <;> obtain ⟨hg,⟨⟩⟩ := Option.ite_none_right_eq_some.1 hs
  · exact hv
  · exact hv
  · next c cmd =>
    rcases cutover_cases (w.now c) cmd with ⟨h,-⟩ | ⟨hm,-⟩
    · exact hu h
    rcases eq_or_eq_other k c with rfl | rfl
    · rcases hl with ⟨hh,hle⟩ | ⟨ha,-⟩
      · exact ⟨c,live_moves hw hh hle hg hp hm⟩
      · have hi := attests_inactive ha
        rw [other_other] at hi
        exact hu (apply_own_inactive hw hi hg)
    · exact hu (apply_own_inactive hw (hl.inactive_other hw) hg)
  · next c epoch =>
    obtain ⟨past,hpa,ha⟩ := hg
    rcases cutover_cases (w.now c) (.cutoverAuthorityReceived epoch (d.id c.other) (d.id c)) with
      ⟨h,-⟩ | ⟨hm,-⟩
    · exact hu h
    refine ⟨c,.inl ?_⟩
    rw [commit_now_self,commit_now_other]
    generalize ((w.now c).apply _).1.cutover = r at hm ⊢
    cases hm with
    | received hf =>
      exact ⟨.inl (holds_of_authority (hw.named c) rfl (.inr (.inl rfl))),
        (epoch_of_fresh hw hpa ha hf).le⟩

theorem Safe.recoverable (h : Safe d w) : Recoverable d w := by
  obtain ⟨hw,hf,k,hl⟩ := h
  have hap : ∀ c cmd, cmd.requiredFeatureLevel = 1 → (w.now c).admits cmd := by
    intro c cmd h
    cases cmd <;> simp_all [ClusterState.admits]
  have hn := hw.named k
  rcases hl with ⟨hh | hp,-⟩ | ⟨ha,hlt⟩
  · exact ⟨k,.inl hh⟩
  · refine ⟨k,.inr ⟨_,.head _,_,if_pos (decide_eq_true rfl),?_⟩⟩
    rw [World.holds,commit_now_self,ClusterState.apply,if_pos (hap _ _ rfl)]
    refine holds_of_authority ?_ ?_ (.inr (.inr ?_)) <;> rcases hp with hp | hp | hp <;>
      simp [ClusterState.applyAdmitted,ClusterState.applyCutover,applyCutover,unsealAuthority,hp,hn]
  · refine ⟨k.other,.inr ⟨_,.tail _ (.head _),_,
      if_pos ⟨_,hw.current,(other_other k).symm ▸ ha⟩,?_⟩⟩
    obtain ⟨-,hp,hau,hn⟩ := received_fresh (d.id k) (d.id k.other) (not_le.2 hlt)
    rw [World.holds,commit_now_self,ClusterState.apply,if_pos (hap _ _ rfl),other_other]
    exact holds_of_authority (hn.trans (hw.named _)) hau (.inr (.inl hp))

/-- Two logs that transfer to each other never lose the authority, whatever is committed and however
late an attestation arrives. -/
theorem authority_never_lost (d : Deployment) (events : List Event) (w : World)
    (hpaired : Guarded (step d) (paired d · ·) (World.init d) events)
    (hrun : run (step d) (World.init d) events = some w) : Recoverable d w := by
  have hi : Safe d (World.init d) := by
    refine ⟨inv_init d,fun c => ?_,.a,.inl ⟨.inl ?_,le_rfl⟩⟩
    · cases c <;> exact le_rfl
    · simp [World.init,start,name,holdsClientWriteAuthority]
  exact (run_invariant_guarded safe_step hi hpaired hrun).recoverable

theorem authority_never_lost_handoff :
    ∃ w, run (step blueGreen) (World.init blueGreen) (handoff.take 5) = some w ∧
      !(w.holds blueGreen .a || w.holds blueGreen .b) ∧ Recoverable blueGreen w := by
  have hs : (run (step blueGreen) (World.init blueGreen) (handoff.take 5)).any fun w =>
      !(w.holds blueGreen .a || w.holds blueGreen .b) := by decide +kernel
  obtain ⟨w,hw,hh⟩ := (Option.any_eq_true _ _).1 hs
  exact ⟨w,hw,hh,authority_never_lost _ _ w (by decide +kernel) hw⟩

end CutoverRecovery
end PgBattery
