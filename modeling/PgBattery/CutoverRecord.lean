import PgBattery.Commands

/-! The cutover record along every sequence of commands: whom a transfer gives authority to, what an epoch
names, and which fields a phase carries. -/
namespace PgBattery
namespace CutoverRecord
open StateMachine ClusterState CutoverAuthorityState

def isCutover : ClusterCommand → Bool
  | .cutoverArmed .. | .cutoverSealing _ | .cutoverSeal _ | .cutoverDrainObserved | .cutoverTransfer ..
  | .cutoverAbortUnseal _ | .cutoverAuthorityReceived .. | .nameCluster .. => true
  | _ => false

section Steps
variable {γ : Type} {mark : γ → ClusterCommand → γ}

/-- What `mark` keeps of the cutover commands that applied. -/
def onCutover (mark : γ → ClusterCommand → γ) (g : γ) (s : ClusterState) (cmd : ClusterCommand) : γ :=
  if s.applies cmd && isCutover cmd then mark g cmd else g

theorem apply_of_isCutover {s : ClusterState} {cmd : ClusterCommand} (h : isCutover cmd) :
    s.apply cmd = if s.admits cmd then s.applyCutover cmd else (s,.outOfOrder) := by
  cases cmd with
  | cutoverArmed target own => rfl
  | cutoverSealing roles => rfl
  | cutoverSeal lsn => rfl
  | cutoverDrainObserved => rfl
  | cutoverTransfer target addr forced => rfl
  | cutoverAbortUnseal own => rfl
  | cutoverAuthorityReceived epoch donor own => rfl
  | nameCluster own awaits => rfl
  | _ => cases h

theorem applyCutover_of_not_isCutover {c : CutoverAuthorityState} {cmd : ClusterCommand}
    (h : isCutover cmd = false) : c.applyCutover cmd = (c,.outOfOrder) := by
  cases cmd with
  | cutoverArmed target own => cases h
  | cutoverSealing roles => cases h
  | cutoverSeal lsn => cases h
  | cutoverDrainObserved => cases h
  | cutoverTransfer target addr forced => cases h
  | cutoverAbortUnseal own => cases h
  | cutoverAuthorityReceived epoch donor own => cases h
  | nameCluster own awaits => cases h
  | _ => rfl

theorem cutover_cases (s : ClusterState) (cmd : ClusterCommand) :
    ((s.apply cmd).1.cutover = s.cutover ∧ (s.applies cmd && isCutover cmd) = false) ∨
      (Moves s.cutover cmd (s.apply cmd).1.cutover ∧ (s.applies cmd && isCutover cmd)) := by
  cases hc : isCutover cmd with
  | false =>
    refine .inl ⟨?_,Bool.and_false _⟩
    rcases s.apply_cases cmd with heq | heq
    · rw [heq]
    · rw [heq,after,applyCutover_of_not_isCutover hc]
  | true =>
    rw [applies,apply_of_isCutover hc]
    split_ifs with ha
    · rcases s.cutover.applyCutover_cases cmd with heq | ⟨c',heq,hm⟩
      · exact .inl (by simp [ClusterState.applyCutover,heq])
      · exact .inr (by simp [ClusterState.applyCutover,heq,hm])
    · exact .inl ⟨rfl,rfl⟩

theorem follow_cutover {inv : CutoverAuthorityState → γ → Prop} {s : ClusterState} {g : γ}
    {cmds : List ClusterCommand} (h : inv s.cutover g)
    (hst : ∀ c g c', ∀ cmd ∈ cmds, inv c g → Moves c cmd c' → inv c' (mark g cmd)) :
    inv (follow (onCutover mark) (s,g) cmds).1.cutover (follow (onCutover mark) (s,g) cmds).2 := by
  refine @follow_invariant γ (onCutover mark) (fun p => inv p.1.cutover p.2) _ _ h fun s g cmd hc hs => ?_
  dsimp only at hs ⊢
  rw [onCutover]
  rcases cutover_cases s cmd with ⟨hsa,ha⟩ | ⟨hm,ha⟩
  · rw [hsa,ha]
    exact hs
  · rw [ha]
    exact hst _ _ _ cmd hc hs hm

end Steps

section Recipient

/-- The target of the last applied arm, until an abort or a receipt. -/
def opened (t : Option String) : ClusterCommand → Option String
  | .cutoverArmed target _ => some target
  | .cutoverAbortUnseal _ | .cutoverAuthorityReceived .. => none
  | _ => t

/-- The state after the commands and the target they opened a handoff to, from no cutover at all. -/
def handoff (base : ClusterState) (cmds : List ClusterCommand) : ClusterState × Option String :=
  follow (onCutover opened) ({base with cutover := {}},none) cmds

/-- Between the arm and the end of the handoff the record has the target it was armed for. -/
def Underway (c : CutoverAuthorityState) (t : Option String) : Prop :=
  c.phase = .armed ∨ c.phase = .sealing ∨ c.phase = .sealed ∨ c.phase = .draining →
    t.isSome = true ∧ t = c.targetClusterId

theorem underway_moves {c c' : CutoverAuthorityState} {t : Option String} {cmd : ClusterCommand}
    (h : Underway c t) (hm : Moves c cmd c') : Underway c' (opened t cmd) := by
  cases hm with
  | armed hma => exact fun _ => ⟨rfl,rfl⟩
  | sealing hp => exact fun _ => h (.inl hp)
  | sealed hp => exact fun _ => h (.inr (.inl hp))
  | drained hp => exact fun _ => h (.inr (.inr (.inl hp)))
  | transferred hma => rintro (hp | hp | hp | hp) <;> cases hp
  | aborted hp => rintro (hp | hp | hp | hp) <;> cases hp
  | received he => rintro (hp | hp | hp | hp) <;> cases hp
  | named hn => exact h

theorem underway_handoff (base : ClusterState) (cmds : List ClusterCommand) :
    Underway (handoff base cmds).1.cutover (handoff base cmds).2 := by
  refine follow_cutover ?_ fun c t c' cmd _ h hm => underway_moves h hm
  rintro (hp | hp | hp | hp) <;> cases hp

theorem underway_of_mayTransfer {c : CutoverAuthorityState} {forced : Bool}
    (h : c.mayTransfer forced) : c.phase = .sealed ∨ c.phase = .draining := by
  cases forced with
  | true => exact of_decide_eq_true h
  | false => exact .inr (of_decide_eq_true h)

theorem transfer_of_applies {s : ClusterState} {target addr : String} {forced : Bool}
    (h : s.applies (.cutoverTransfer target addr forced)) :
    (s.cutover.phase = .sealed ∨ s.cutover.phase = .draining) ∧
      (s.apply (.cutoverTransfer target addr forced)).1.cutover.authorityClusterId = some target := by
  rcases cutover_cases s (.cutoverTransfer target addr forced) with ⟨-,hn⟩ | ⟨hm,-⟩
  · rw [h] at hn
    cases hn
  · generalize (s.apply (.cutoverTransfer target addr forced)).1.cutover = c' at hm
    cases hm with
    | transferred hma => exact ⟨underway_of_mayTransfer hma,rfl⟩

/-- Every transfer of the sequence that applies gives authority to the target armed for. -/
def GivesAsArmed (base : ClusterState) (cmds : List ClusterCommand) : Prop :=
  ∀ before after target addr forced, cmds = before++.cutoverTransfer target addr forced::after →
    (handoff base before).1.applies (.cutoverTransfer target addr forced) = true →
    ((handoff base before).1.apply (.cutoverTransfer target addr forced)).1.cutover.authorityClusterId =
      (handoff base before).2

/-- Every transfer of the sequence that applies names the target the record has. -/
def NamesRecorded (base : ClusterState) (cmds : List ClusterCommand) : Prop :=
  ∀ before after target addr forced, cmds = before++.cutoverTransfer target addr forced::after →
    (handoff base before).1.applies (.cutoverTransfer target addr forced) = true →
    (handoff base before).1.cutover.targetClusterId = some target

/-- Authority goes where it was armed to go exactly when no transfer names another target: nothing in the
state machine compares the two. -/
theorem gives_as_armed_iff (base : ClusterState) (cmds : List ClusterCommand) :
    GivesAsArmed base cmds ↔ NamesRecorded base cmds := by
  have hs : ∀ before target addr forced,
      (handoff base before).1.applies (.cutoverTransfer target addr forced) →
      (handoff base before).2 = (handoff base before).1.cutover.targetClusterId := by
    intro before target addr forced ha
    refine (underway_handoff base before ?_).2
    rcases (transfer_of_applies ha).1 with hp | hp
    · exact .inr (.inr (.inl hp))
    · exact .inr (.inr (.inr hp))
  constructor
  · intro h before after target addr forced hc ha
    have hg := h before after target addr forced hc ha
    rw [(transfer_of_applies ha).2,hs before target addr forced ha] at hg
    exact hg.symm
  · intro h before after target addr forced hc ha
    rw [(transfer_of_applies ha).2,hs before target addr forced ha]
    exact (h before after target addr forced hc ha).symm

def misdirected : List ClusterCommand :=
  [.setFeatureLevel 1,.cutoverArmed "green" "blue",.cutoverSealing ["app"],.cutoverSeal 4096,
    .cutoverDrainObserved,.cutoverTransfer "red" "10.0.9.1:5432" false]

theorem gives_not_as_armed : ¬GivesAsArmed {} misdirected := by
  intro h
  have hg := h (misdirected.take 5) [] "red" "10.0.9.1:5432" false rfl (by decide +kernel)
  revert hg
  decide +kernel

end Recipient

section Epochs

def isHandoff : ClusterCommand → Bool
  | .cutoverTransfer .. | .cutoverAbortUnseal _ | .cutoverAuthorityReceived .. => true
  | _ => false

def increments : ClusterCommand → Bool
  | .cutoverTransfer .. | .cutoverAbortUnseal _ => true
  | _ => false

def handed (g : Bool) (cmd : ClusterCommand) : Bool := g || isHandoff cmd

/-- The state after the commands and whether a handoff command has applied. -/
def epochs (s : ClusterState) (cmds : List ClusterCommand) : ClusterState × Bool :=
  follow (onCutover handed) (s,false) cmds

def epochAfter (s : ClusterState) (cmds : List ClusterCommand) : U64 := (epochs s cmds).1.cutover.epoch

theorem epoch_le_of_moves {c c' : CutoverAuthorityState} {cmd : ClusterCommand} (h : Moves c cmd c') :
    c.epoch ≤ c'.epoch := by
  cases h with
  | transferred hm => exact U64.le_saturatingAdd c.epoch 1
  | aborted hp => exact U64.le_saturatingAdd c.epoch 1
  | received he => exact he.le
  | _ => exact le_rfl

theorem lt_saturatingAdd_one_self {a : U64} : a < U64.saturatingAdd a 1 ↔ a ≠ U64.max := by
  refine ⟨?_,U64.lt_saturatingAdd_one⟩
  rintro h rfl
  exact absurd h (by decide)

theorem epoch_lt_of_moves_iff {c c' : CutoverAuthorityState} {cmd : ClusterCommand} (h : Moves c cmd c')
    (hc : isHandoff cmd) :
    c.epoch < c'.epoch ↔ (increments cmd → c.epoch ≠ U64.max) := by
  cases h with
  | transferred hm => exact lt_saturatingAdd_one_self.trans ⟨fun h _ => h,fun h => h rfl⟩
  | aborted hp => exact lt_saturatingAdd_one_self.trans ⟨fun h _ => h,fun h => h rfl⟩
  | received he => exact ⟨(fun _ h => nomatch h),fun _ => he⟩
  | _ => cases hc

/-- Within an epoch the authority, once there is one, stays. -/
theorem authority_of_moves {c c' : CutoverAuthorityState} {cmd : ClusterCommand} (h : Moves c cmd c')
    (hc : isHandoff cmd = false) (hs : c.authorityClusterId.isSome) :
    c'.authorityClusterId = c.authorityClusterId := by
  obtain ⟨authority,ha⟩ := Option.isSome_iff_exists.1 hs
  cases h with
  | @armed target own hm =>
    have hh : c.holdsClientWriteAuthority own := by
      unfold mayArm at hm
      split at hm
      all_goals first | exact hm | cases hm
    have ho : authority = own := by
      unfold holdsClientWriteAuthority at hh
      split_ifs at hh
      split at hh
      all_goals first | cases hh | simpa [ha] using hh
    rw [ha,ho]
  | named hn =>
    have hf : c.bootFenceMayLand = false := by simp [bootFenceMayLand,ha]
    simp [hf]
  | transferred hm => cases hc
  | aborted hp => cases hc
  | received he => cases hc
  | _ => rfl

theorem epochAfter_concat (s : ClusterState) (cmds : List ClusterCommand) (cmd : ClusterCommand) :
    epochAfter s (cmds++[cmd]) = ((epochs s cmds).1.apply cmd).1.cutover.epoch := by
  rw [epochAfter,epochs,follow_concat]
  rfl

theorem epochAfter_le_concat (s : ClusterState) (cmds : List ClusterCommand) (cmd : ClusterCommand) :
    epochAfter s cmds ≤ epochAfter s (cmds++[cmd]) := by
  rw [epochAfter_concat]
  rcases cutover_cases (epochs s cmds).1 cmd with ⟨hs,-⟩ | ⟨hm,-⟩
  · rw [hs]
    exact le_rfl
  · exact epoch_le_of_moves hm

theorem epochAfter_mono (s : ClusterState) {l m : List ClusterCommand} (h : l <+: m) :
    epochAfter s l ≤ epochAfter s m := by
  obtain ⟨d,rfl⟩ := h
  induction d using List.reverseRecOn with
  | nil => rw [List.append_nil]
  | append_singleton d cmd ih =>
    rw [← List.append_assoc]
    exact ih.trans (epochAfter_le_concat s (l++d) cmd)

theorem authority_of_handed (s : ClusterState) (cmds : List ClusterCommand)
    (h : (epochs s cmds).2) : (epochs s cmds).1.cutover.authorityClusterId.isSome := by
  refine @follow_cutover Bool handed (fun c g => g → c.authorityClusterId.isSome) _ _ _
    (fun h => nomatch h) (fun c g c' cmd _ hi hm hg => ?_) h
  cases hc : isHandoff cmd with
  | true =>
    cases hm with
    | transferred hma => rfl
    | aborted hp => rfl
    | received he => rfl
    | _ => cases hc
  | false =>
    rw [handed,hc,Bool.or_false] at hg
    rw [authority_of_moves hm hc (hi hg)]
    exact hi hg

/-- The command at a place of the sequence is a handoff that applies. -/
def HandsOff (s : ClusterState) (cmds before : List ClusterCommand) (cmd : ClusterCommand) : Prop :=
  before++[cmd] <+: cmds ∧ isHandoff cmd = true ∧ (epochs s before).1.applies cmd = true

/-- Epochs order the handoffs: they never go back, every handoff opens a new one, and once a handoff has
set an authority an epoch names only one. -/
structure Fenced (s : ClusterState) (cmds : List ClusterCommand) : Prop where
  monotone : ∀ l m, l <+: m → m <+: cmds → epochAfter s l ≤ epochAfter s m
  strict : ∀ before cmd, HandsOff s cmds before cmd → epochAfter s before < epochAfter s (before++[cmd])
  unique : ∀ l m, l <+: cmds → m <+: cmds → (epochs s l).2 = true → (epochs s m).2 = true →
    epochAfter s l = epochAfter s m →
    (epochs s l).1.cutover.authorityClusterId = (epochs s m).1.cutover.authorityClusterId

/-- No transfer or abort applies in the last epoch there is. -/
def Unsaturated (s : ClusterState) (cmds : List ClusterCommand) : Prop :=
  ∀ before cmd, HandsOff s cmds before cmd → increments cmd = true → epochAfter s before ≠ U64.max

theorem isCutover_of_isHandoff {cmd : ClusterCommand} (h : isHandoff cmd) :
    isCutover cmd := by
  cases cmd with
  | cutoverTransfer target addr forced => rfl
  | cutoverAbortUnseal own => rfl
  | cutoverAuthorityReceived epoch donor own => rfl
  | _ => cases h

theorem epochAfter_lt_iff {s : ClusterState} {cmds before : List ClusterCommand} {cmd : ClusterCommand}
    (h : HandsOff s cmds before cmd) : epochAfter s before < epochAfter s (before++[cmd]) ↔
      (increments cmd → epochAfter s before ≠ U64.max) := by
  obtain ⟨-,hc,ha⟩ := h
  rw [epochAfter_concat]
  rcases cutover_cases (epochs s before).1 cmd with ⟨-,hn⟩ | ⟨hm,-⟩
  · rw [ha,isCutover_of_isHandoff hc] at hn
    cases hn
  · exact epoch_lt_of_moves_iff hm hc

theorem authority_append {s : ClusterState} {cmds l : List ClusterCommand}
    (hs : ∀ before cmd, HandsOff s cmds before cmd →
      epochAfter s before < epochAfter s (before++[cmd])) (hh : (epochs s l).2)
    {d : List ClusterCommand} (hd : l++d <+: cmds) (he : epochAfter s (l++d) = epochAfter s l) :
    (epochs s (l++d)).2 ∧ (epochs s (l++d)).1.cutover.authorityClusterId =
      (epochs s l).1.cutover.authorityClusterId := by
  induction d using List.reverseRecOn with
  | nil =>
    rw [List.append_nil]
    exact ⟨hh,rfl⟩
  | append_singleton d cmd ih =>
    rw [← List.append_assoc] at hd he ⊢
    have hi : l++d <+: cmds := (List.prefix_append _ _).trans hd
    have hb : epochAfter s (l++d) = epochAfter s l :=
      le_antisymm (he ▸ epochAfter_le_concat s (l++d) cmd)
        (epochAfter_mono s (List.prefix_append l d))
    obtain ⟨hh',ha⟩ := ih hi hb
    rw [epochs,follow_concat] at ⊢
    change onCutover handed (epochs s (l++d)).2 (epochs s (l++d)).1 cmd ∧
      ((epochs s (l++d)).1.apply cmd).1.cutover.authorityClusterId = _
    rcases cutover_cases (epochs s (l++d)).1 cmd with ⟨hsa,hn⟩ | ⟨hm,hap⟩
    · rw [onCutover,hn,hsa]
      exact ⟨hh',ha⟩
    · have hc : isHandoff cmd = false := by
        by_contra hc
        have hlt := hs (l++d) cmd
          ⟨hd,Bool.not_eq_false _ ▸ hc,(Bool.and_eq_true_iff.1 hap).1⟩
        rw [he,hb] at hlt
        exact lt_irrefl _ hlt
      have hso := authority_of_handed s (l++d) hh'
      rw [onCutover,hap,handed,hh']
      exact ⟨rfl,(authority_of_moves hm hc hso).trans ha⟩

theorem fenced_iff_unsaturated (s : ClusterState) (cmds : List ClusterCommand) :
    Fenced s cmds ↔ Unsaturated s cmds := by
  constructor
  · intro h before cmd hc
    exact (epochAfter_lt_iff hc).1 (h.strict before cmd hc)
  · intro h
    have hs : ∀ before cmd, HandsOff s cmds before cmd →
        epochAfter s before < epochAfter s (before++[cmd]) :=
      fun before cmd hc => (epochAfter_lt_iff hc).2 (h before cmd hc)
    refine ⟨fun l m hlm _ => epochAfter_mono s hlm,hs,fun l m hl hm hhl hhm he => ?_⟩
    rcases List.prefix_or_prefix_of_prefix hl hm with ⟨d,rfl⟩ | ⟨d,rfl⟩
    · exact (authority_append hs hhl hm he.symm).2.symm
    · exact (authority_append hs hhm hl he).2

def saturated : List ClusterCommand :=
  [.setFeatureLevel 1,.cutoverAuthorityReceived U64.max "blue" "green",.cutoverArmed "red" "green",
    .cutoverSealing ["app"],.cutoverSeal 4096,.cutoverDrainObserved,
    .cutoverTransfer "red" "10.0.9.1:5432" false]

theorem not_fenced_saturated : ¬Fenced {} saturated := by
  intro h
  have hu := h.unique (saturated.take 6) saturated (by decide +kernel) List.prefix_rfl
    (by decide +kernel) (by decide +kernel) (by decide +kernel)
  revert hu
  decide +kernel

end Epochs

section Fields
variable {own : String}

/-- The command calls the local cluster `own`, and any other cluster something else. -/
def names (own : String) : ClusterCommand → Bool
  | .cutoverArmed target localId => target ≠ own && localId = own
  | .cutoverTransfer target _ _ => target ≠ own
  | .cutoverAbortUnseal localId => localId = own
  | .cutoverAuthorityReceived _ _ localId => localId = own
  | .nameCluster name awaits => name = own && awaits.all (· ≠ own)
  | _ => true

/-- The phases entered since the last abort or receipt. -/
def entered (phases : List CutoverPhase) : ClusterCommand → List CutoverPhase
  | .cutoverArmed .. => phases++[.armed]
  | .cutoverSealing _ => phases++[.sealing]
  | .cutoverSeal _ => phases++[.sealed]
  | .cutoverDrainObserved => phases++[.draining]
  | .cutoverTransfer .. => phases++[.transferred]
  | .cutoverAbortUnseal _ | .cutoverAuthorityReceived .. => []
  | _ => phases

def record (cmds : List ClusterCommand) : ClusterState × List CutoverPhase :=
  follow (onCutover entered) ({},[]) cmds

def Bare (c : CutoverAuthorityState) : Prop :=
  c.targetPgAddr = none ∧ c.sealedFinalLsn = none ∧ c.fencedAppRoles = []

def Away (own : String) (c : CutoverAuthorityState) : Prop := ∃ id, c.authorityClusterId = some id ∧ id ≠ own

/-- What each phase carries, and how it was come to. -/
def Formed (own : String) (c : CutoverAuthorityState) (phases : List CutoverPhase) : Prop :=
  match c.phase with
  | .idle | .aborted => Bare c ∧ phases = []
  | .armed => Bare c ∧ phases = [.armed]
  | .sealing => c.targetPgAddr = none ∧ c.sealedFinalLsn = none ∧ phases = [.armed,.sealing]
  | .sealed => c.targetPgAddr = none ∧ c.sealedFinalLsn.isSome = true ∧ phases = [.armed,.sealing,.sealed]
  | .draining =>
    c.targetPgAddr = none ∧ c.sealedFinalLsn.isSome = true ∧ phases = [.armed,.sealing,.sealed,.draining]
  | .transferred =>
    (Bare c ∧ c.authorityClusterId = some own ∧ phases = []) ∨
      (Away own c ∧ (c.transferForced = false →
        phases = [.armed,.sealing,.sealed,.draining,.transferred]))

theorem authority_of_holds {c : CutoverAuthorityState} (h : c.holdsClientWriteAuthority own) :
    ¬Away own c := by
  rintro ⟨id,hid,hne⟩
  unfold holdsClientWriteAuthority at h
  split_ifs at h
  split at h
  all_goals first | cases h | simp [hid,hne] at h

theorem bare_of_mayArm {c : CutoverAuthorityState} {phases : List CutoverPhase}
    (hc : Formed own c phases) (h : c.mayArm own) : Bare c ∧ phases = [] := by
  unfold mayArm at h
  unfold Formed at hc
  split at h
  next hp => rw [hp] at hc; exact hc
  next hp => rw [hp] at hc; exact hc
  next hp =>
    rw [hp] at hc
    rcases hc with hc | hc
    · exact ⟨hc.1,hc.2.2⟩
    · exact absurd hc.1 (authority_of_holds h)
  all_goals cases h

theorem formed_moves {c c' : CutoverAuthorityState} {phases : List CutoverPhase} {cmd : ClusterCommand}
    (hcm : names own cmd) (hc : Formed own c phases) (hm : Moves c cmd c') :
    Formed own c' (entered phases cmd) := by
  cases hm with
  | @armed target localId hma =>
    obtain ⟨-,hlo⟩ := Bool.and_eq_true_iff.1 hcm
    obtain rfl : localId = own := of_decide_eq_true hlo
    obtain ⟨hb,rfl⟩ := bare_of_mayArm hc hma
    exact ⟨hb,rfl⟩
  | sealing hp =>
    rw [Formed,hp] at hc
    obtain ⟨⟨ha,hls,-⟩,rfl⟩ := hc
    exact ⟨ha,hls,rfl⟩
  | sealed hp =>
    rw [Formed,hp] at hc
    obtain ⟨ha,-,rfl⟩ := hc
    exact ⟨ha,rfl,rfl⟩
  | drained hp =>
    rw [Formed,hp] at hc
    obtain ⟨ha,hls,rfl⟩ := hc
    exact ⟨ha,hls,rfl⟩
  | @transferred target addr forced hma =>
    refine .inr ⟨⟨target,rfl,of_decide_eq_true hcm⟩,fun hfo => ?_⟩
    obtain rfl : forced = false := hfo
    rw [Formed,of_decide_eq_true hma] at hc
    obtain ⟨-,-,rfl⟩ := hc
    rfl
  | aborted hp => exact ⟨⟨rfl,rfl,rfl⟩,rfl⟩
  | received he =>
    refine .inl ⟨⟨rfl,rfl,rfl⟩,?_,rfl⟩
    exact congrArg some (of_decide_eq_true hcm)
  | @named name awaits hn =>
    -- a boot fence lands only in the idle phase, which says nothing of the authority
    by_cases hf : (awaits.isSome && c.bootFenceMayLand)
    · have hi : c.phase = .idle := by
        have hl := (Bool.and_eq_true_iff.1 hf).2
        rw [bootFenceMayLand,decide_eq_true_eq] at hl
        exact hl.1
      rw [Formed,hi] at hc
      rw [Formed,hi]
      exact hc
    · rw [if_neg hf]
      exact hc

theorem formed_record {cmds : List ClusterCommand} (hcm : ∀ cmd ∈ cmds, names own cmd) :
    Formed own (record cmds).1.cutover (record cmds).2 := by
  refine follow_cutover ⟨⟨rfl,rfl,rfl⟩,rfl⟩ fun c phases c' cmd hcmd hc hm => ?_
  exact formed_moves (hcm cmd hcmd) hc hm

/-- What the record says in every phase. -/
structure WellFormed (own : String) (c : CutoverAuthorityState) (phases : List CutoverPhase) : Prop where
  holder : c.holdsClientWriteAuthority own = true → Bare c
  sealedLsn : c.phase = .sealed ∨ c.phase = .draining → c.sealedFinalLsn.isSome = true
  unsealedLsn : c.phase = .idle ∨ c.phase = .armed ∨ c.phase = .sealing ∨ c.phase = .aborted →
    c.sealedFinalLsn = none
  relay : c.targetPgAddr.isSome = true → c.phase = .transferred ∧ Away own c
  drained : c.phase = .transferred → c.transferForced = false → Away own c →
    phases = [.armed,.sealing,.sealed,.draining,.transferred]

theorem wellFormed_of_bare {c : CutoverAuthorityState} {phases : List CutoverPhase}
    (hp : c.phase = .idle ∨ c.phase = .armed ∨ c.phase = .aborted) (h : Bare c) :
    WellFormed own c phases where
  holder _ := h
  sealedLsn := by rcases hp with hp | hp | hp <;> simp [hp]
  unsealedLsn _ := h.2.1
  relay ha := by simp [h.1] at ha
  drained := by rcases hp with hp | hp | hp <;> simp [hp]

theorem wellFormed_of_transit {c : CutoverAuthorityState} {phases : List CutoverPhase}
    (hp : c.phase = .sealing ∨ c.phase = .sealed ∨ c.phase = .draining) (ha : c.targetPgAddr = none)
    (hs : c.phase ≠ .sealing → c.sealedFinalLsn.isSome)
    (hu : c.phase = .sealing → c.sealedFinalLsn = none) : WellFormed own c phases where
  holder hh := by
    have hn : c.holdsClientWriteAuthority own = false := by
      unfold holdsClientWriteAuthority
      rcases hp with hp | hp | hp <;> simp [hp]
    rw [hn] at hh
    cases hh
  sealedLsn := by
    rintro (h | h)
    · exact hs (by simp [h])
    · exact hs (by simp [h])
  unsealedLsn := by
    rintro (h | h | h | h)
    · simp [h] at hp
    · simp [h] at hp
    · exact hu h
    · simp [h] at hp
  relay h := by simp [ha] at h
  drained := by rcases hp with hp | hp | hp <;> simp [hp]

theorem wellFormed_of_formed {c : CutoverAuthorityState} {phases : List CutoverPhase}
    (h : Formed own c phases) : WellFormed own c phases := by
  cases hp : c.phase with
  | idle =>
    rw [Formed,hp] at h
    exact wellFormed_of_bare (.inl hp) h.1
  | armed =>
    rw [Formed,hp] at h
    exact wellFormed_of_bare (.inr (.inl hp)) h.1
  | aborted =>
    rw [Formed,hp] at h
    exact wellFormed_of_bare (.inr (.inr hp)) h.1
  | sealing =>
    rw [Formed,hp] at h
    exact wellFormed_of_transit (.inl hp) h.1 (fun hne => absurd hp hne) fun _ => h.2.1
  | sealed =>
    rw [Formed,hp] at h
    exact wellFormed_of_transit (.inr (.inl hp)) h.1 (fun _ => h.2.1) (by simp [hp])
  | draining =>
    rw [Formed,hp] at h
    exact wellFormed_of_transit (.inr (.inr hp)) h.1 (fun _ => h.2.1) (by simp [hp])
  | transferred =>
    rw [Formed,hp] at h
    rcases h with ⟨hb,ha,-⟩ | ⟨haw,hd⟩
    · have hho : ¬Away own c := by
        rintro ⟨id,hid,hne⟩
        exact hne (Option.some.inj (hid.symm.trans ha))
      refine ⟨fun _ => hb,by simp [hp],by simp [hp],by simp [hb.1],?_⟩
      exact fun _ _ haw => absurd haw hho
    · refine ⟨fun hh => absurd haw (authority_of_holds hh),by simp [hp],by simp [hp],?_,?_⟩
      · exact fun _ => ⟨hp,haw⟩
      · exact fun _ hf _ => hd hf

/-- In every state that commands calling the local cluster `own` reach, no field of an earlier handoff is
left, and authority given away without force was drained first. -/
theorem record_wellFormed (own : String) (cmds : List ClusterCommand)
    (hcmds : ∀ cmd ∈ cmds, names own cmd = true) :
    WellFormed own (record cmds).1.cutover (record cmds).2 :=
  wellFormed_of_formed (formed_record hcmds)

def handedOn : List ClusterCommand :=
  [.setFeatureLevel 1,.nameCluster "green" (some "blue"),.cutoverAuthorityReceived 3 "blue" "green",
    .cutoverArmed "blue" "green",.cutoverAbortUnseal "green",.cutoverArmed "red" "green",
    .cutoverSealing ["app"],.cutoverSeal 4096,.cutoverDrainObserved,
    .cutoverTransfer "red" "10.0.9.1:5432" false]

theorem record_wellFormed_handedOn : (record handedOn).1.cutover.targetPgAddr.isSome = true ∧
    WellFormed "green" (record handedOn).1.cutover (record handedOn).2 :=
  ⟨by decide +kernel,record_wellFormed "green" handedOn (by decide +kernel)⟩

/-- A receipt, too, leaves the record transferred and unforced. -/
theorem transferred_undrained : ∃ cmds : List ClusterCommand, (∀ cmd ∈ cmds, names "green" cmd = true) ∧
    (record cmds).1.cutover.phase = .transferred ∧ (record cmds).1.cutover.transferForced = false ∧
    (record cmds).2 = [] :=
  ⟨[.setFeatureLevel 1,.cutoverAuthorityReceived 1 "blue" "green"],by decide +kernel,by decide +kernel,
    by decide +kernel,by decide +kernel⟩

end Fields
end CutoverRecord
end PgBattery
