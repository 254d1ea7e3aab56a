import PgBattery.Following

/-! What a demote discards. A directory that holds WAL the leader's history does not have loses it when
`pg_rewind` modifies the directory and when the directory is cleared for a clone. -/
namespace PgBattery
namespace RewindGate
open SqlReply Rewind Following Interaction TransitionSystem List

/-- How a data directory stands against the leader's history: its lineage, where its WAL ends and where
it leaves that history. `named` is the fork a dry run named, `begun` that `pg_rewind` began to modify the
directory past the gate. -/
structure Standing where
  lineage : U64
  walEnd : U64
  fork : U64
  named : Option U64 := none
  begun : Bool := false
  deriving DecidableEq

/-- How far a demote is: the server may write, the end of its WAL has been asked for, or it has been stopped
or its directory given up. -/
inductive Phase
  | serving
  | measured
  | settled
  deriving DecidableEq

/-- `discarded` has the directory as it stood at each discard. -/
structure World where
  now : Standing
  phase : Phase := .serving
  discarded : List Standing := []
  deriving DecidableEq

/-- A reply, with how the directory stands when it is given. `touched` says that a run of `pg_rewind`
modified the directory before it ended. -/
structure Event where
  walEnd : U64
  fork : U64
  reply : Reply
  touched : Bool := false

def committedLineage : LineageTerm → Option U64
  | .unenforced => none
  | .committed lineage => lineage

def gated (budget : RewindBudget) (s : Standing) : Bool :=
  budget = .unbounded || s.named.any fun fork => budget.covers (s.walEnd.val-fork.val)

/-- The directory may be discarded: it has nothing past the fork, or what it has is accounted for. -/
def justified (terms : FollowTerms) (s : Standing) : Bool :=
  s.walEnd ≤ s.fork || gated terms.rewindBudget s ||
    (committedLineage terms.lineage).any (· ≠ s.lineage) || s.begun

def safe (terms : FollowTerms) (w : World) : Prop := ∀ s ∈ w.discarded, justified terms s = true

section Semantics
variable (terms : FollowTerms)

def World.moved (w : World) (e : Event) : World :=
  {w with now := {w.now with walEnd := e.walEnd, fork := e.fork}}

/-- What the operation does to the directory. -/
def World.effect (w : World) (e : Event) : Op → World
  | .within o => w.effect e o
  | .pgRewind true =>
    match e.reply with
    | .ran (.exited true output) =>
      match parseRewindPlan output with
      | some (.diverged fork) => {w with now := {w.now with named := some fork}}
      | _ => w
    | _ => w
  | .pgRewind false =>
    if e.touched then
      {w with
        now := {w.now with begun := w.now.begun || gated terms.rewindBudget w.now}
        discarded := w.now::w.discarded}
    else w
  | .act .clearDirContents =>
    {w with now := {w.now with walEnd := 0, fork := 0}, discarded := w.now::w.discarded}
  | _ => w

/-- The replies on which a directory is given up though no dry run has measured it: PostgreSQL will not
open it, replay has nowhere to go, the budget runs out or the child is lost before the dry run's verdict,
and the verdicts that there is nothing to discard or that the directory is another cluster's. -/
def condemns : Op → Reply → Bool
  | .start, .started (.refused _) => true
  | .executeSql (.laterSegment _), .text t => laterSegments t = some false
  | .pgRewind true, .ran (.unwaitable _) | .pgRewind true, .ran .overran => true
  | .pgRewind true, .ran (.exited true output) => parseRewindPlan output = some .nothingToDiscard
  | .pgRewind true, .ran (.exited false stderr) => foreignLineage stderr
  | .within o, .elapsed =>
    o = .act .waitForRewindSource || o = .pgRewind true || o = .executeSql .reportableLsn
  | .within o, reply => condemns o reply
  | _, _ => false

def Phase.next (p : Phase) (o : Op) (reply : Reply) : Phase :=
  if o = .act .stop ∨ condemns o reply then .settled
  else if p = .serving ∧ o = .executeSql .reportableLsn then .measured
  else p

def World.after (w : World) (o : Op) (e : Event) : World :=
  {(w.moved e).effect terms e o with phase := w.phase.next o e.reply}

def answer (w : World) (o : Op) (e : Event) : Option (Ans o × World) :=
  (e.reply.answer o).map fun x => (x,w.after terms o e)

/-- What the server writes past the fork between the reading of its end and the end of the stop leaves the
tail within the budget, and after that neither the directory nor the leader's history changes. -/
def stays (w : World) (e : Event) : Prop :=
  e.fork < e.walEnd → w.phase ≠ .serving →
    e.walEnd = w.now.walEnd ∧ e.fork = w.now.fork ∨
      w.phase = .measured ∧ terms.rewindBudget.covers (e.walEnd.val-e.fork.val)

def reported : Reply → Option U64
  | .text t => t.bind fun s => parseLsnLocal (trim s)
  | _ => none

def readsEnd : Op → Bool
  | .within o => readsEnd o
  | .executeSql .reportableLsn => true
  | _ => false

/-- The position PostgreSQL reports is not short of the end of the WAL, as that of a standby that has not
yet replayed what it holds is. -/
def reportsEnd (o : Op) (e : Event) : Prop :=
  readsEnd o = true → e.fork < e.walEnd → (reported e.reply).all fun l => e.walEnd ≤ l

def namedFork : Reply → Option U64
  | .ran (.exited true output) =>
    match parseRewindPlan output with
    | some (.diverged fork) => some fork
    | _ => none
  | _ => none

def dryRun : Op → Bool
  | .within o => dryRun o
  | .pgRewind b => b
  | _ => false

/-- A dry run names no fork before the real one. -/
def namesFork (o : Op) (e : Event) : Prop :=
  dryRun o = true → e.fork < e.walEnd → (namedFork e.reply).all fun f => e.fork ≤ f

/-- The last condition is that a directory that may not be discarded is not condemned. -/
def meets (w : World) (o : Op) (e : Event) : Prop :=
  stays terms w e ∧ reportsEnd o e ∧ namesFork o e ∧
    (justified terms (w.moved e).now = false → condemns o e.reply = false)

instance instDecidableMeets (w : World) (o : Op) (e : Event) : Decidable (meets terms w o e) := by
  unfold meets stays reportsEnd namesFork
  infer_instance

end Semantics

section Kept
variable {terms : FollowTerms}

/-- The program keeps every discard justified and ends with `post`. -/
abbrev Holds (terms : FollowTerms) {α : Type} (post : α → World → Prop) (p : Asking α) (w : World) :
    Prop := p.Keeps (answer terms) (meets terms) (safe terms) post w

theorem answer_eq_some {w w' : World} {o : Op} {e : Event} {x : Ans o}
    (h : answer terms w o e = some (x,w')) : e.reply.answer o = some x ∧ w' = w.after terms o e := by
  obtain ⟨x,hx,⟨⟩⟩ := Option.map_eq_some_iff.1 h
  exact ⟨hx,rfl⟩

@[simp] theorem next_settled (o : Op) (reply : Reply) : Phase.settled.next o reply = .settled := by
  simp [Phase.next]

/-- An assertion that what happens between two replies leaves in place. -/
def Stable (terms : FollowTerms) (P : World → Prop) : Prop :=
  ∀ w e, stays terms w e → P w → P (w.moved e)

def Serving (w : World) : Prop := w.phase = .serving

theorem stable_serving : Stable terms Serving := fun _ _ _ h => h

def Settled (w : World) : Prop := w.phase = .settled

theorem moved_eq {w : World} {e : Event} (hw : Settled w) (h : stays terms w e)
    (hp : e.fork < e.walEnd) : w.moved e = w := by
  have hns : w.phase ≠ .serving := by
    rw [show w.phase = .settled from hw]
    decide
  rcases h hp hns with ⟨hwa,hf⟩ | ⟨hm,-⟩
  · rw [World.moved,hwa,hf]
  · cases hw.symm.trans hm

def Justified (terms : FollowTerms) (w : World) : Prop := justified terms w.now = true

/-- The directory may be discarded, and will stay so. -/
structure Released (terms : FollowTerms) (w : World) : Prop where
  settled : Settled w
  justified : Justified terms w

theorem stable_released : Stable terms (Released terms) := by
  intro w e hm hw
  by_cases hp : e.fork < e.walEnd
  · rwa [moved_eq hw.settled hm hp]
  · refine ⟨hw.settled,?_⟩
    simp [Justified,justified,World.moved,not_lt.1 hp]

/-- The end that was read is that of the WAL, or what was written after it leaves the tail within the
budget; as long as it matters. -/
def Covered (terms : FollowTerms) (read : Option U64) (w : World) : Prop :=
  ∀ l, read = some l → w.now.fork < w.now.walEnd →
    w.now.walEnd ≤ l ∨ terms.rewindBudget.covers (w.now.walEnd.val-w.now.fork.val)

structure Measured (terms : FollowTerms) (read : Option U64) (w : World) : Prop where
  settled : Settled w
  covered : Covered terms read w

theorem stable_measured (read : Option U64) : Stable terms (Measured terms read) := by
  intro w e hm hw
  by_cases hp : e.fork < e.walEnd
  · rwa [moved_eq hw.settled hm hp]
  · exact ⟨hw.settled,fun _ _ h => absurd h hp⟩

/-- Discards nothing. -/
def harmless : Op → Bool
  | .within o => harmless o
  | .pgRewind _ => false
  | .act .clearDirContents => false
  | _ => true

/-- Discards nothing, condemns nothing and ends no phase. -/
def quiet : Op → Bool
  | .within _ | .pgRewind _ | .start => false
  | .act a => a ≠ .clearDirContents ∧ a ≠ .stop
  | .executeSql q => match q with
    | .reportableLsn | .laterSegment _ => false
    | _ => true
  | _ => true

theorem effect_of_harmless (w : World) (e : Event) {o : Op} (h : harmless o) :
    w.effect terms e o = w := by
  induction o with
  | within o ih => exact ih h
  | pgRewind b => cases h
  | act a => cases a <;> first | rfl | cases h
  | _ => rfl

theorem harmless_of_quiet {o : Op} (h : quiet o) : harmless o := by
  cases o with
  | act a => cases a <;> first | rfl | cases h
  | pgRewind b => cases h
  | within o => cases h
  | _ => rfl

theorem next_of_quiet {o : Op} (h : quiet o) (p : Phase) (reply : Reply) : p.next o reply = p := by
  have hc : condemns o reply = false := by
    cases o with
    | executeSql q => cases q <;> first | rfl | cases h
    | start => cases h
    | pgRewind b => cases h
    | within o => cases h
    | _ => rfl
  have hs : o ≠ .act .stop ∧ o ≠ .executeSql .reportableLsn := by
    constructor <;> rintro rfl <;> cases h
  simp [Phase.next,hc,hs]

/-- A directory that may be discarded stays so whatever is done to it, a dry run apart. -/
theorem effect_of_justified {w : World} {e : Event} {o : Op} (ho : dryRun o = false)
    (hs : safe terms w) (hw : Justified terms w) :
    safe terms (w.effect terms e o) ∧ Justified terms (w.effect terms e o) := by
  have hd : safe terms {w with discarded := w.now::w.discarded} :=
    forall_mem_cons.2 ⟨hw,hs⟩
  induction o with
  | within o ih => exact ih ho
  | pgRewind b =>
    cases b with
    | true => cases ho
    | false =>
      rw [World.effect]
      split
      · refine ⟨hd,?_⟩
        have hb : ∀ b, justified terms w.now →
            justified terms {w.now with begun := w.now.begun || b} := by
          intro b h
          simp only [justified,gated,Bool.or_eq_true] at h ⊢
          tauto
        exact hb _ hw
      · exact ⟨hs,hw⟩
  | act a =>
    cases a with
    | clearDirContents => exact ⟨hd,rfl⟩
    | _ => exact ⟨hs,hw⟩
  | _ => exact ⟨hs,hw⟩

theorem keeps_harmless {α : Type} {p : Asking α} (hp : p.Only (harmless ·)) {w : World}
    (hs : safe terms w) : Holds terms (fun _ w => safe terms w) p w := by
  refine Program.keeps_of_only ?_ hp hs
  rintro w o e x w' ho hs hg he
  obtain ⟨-,rfl⟩ := answer_eq_some he
  rw [World.after,effect_of_harmless _ e ho]
  exact ⟨hs,hs⟩

theorem keeps_quiet {α : Type} {P : World → Prop} (hP : Stable terms P) {p : Asking α}
    (hp : p.Only (quiet ·)) {w : World} (hs : safe terms w) (hw : P w) :
    Holds terms (fun _ w => safe terms w ∧ P w) p w := by
  refine Program.keeps_of_only ?_ hp ⟨hs,hw⟩
  rintro w o e x w' ho ⟨hs,hw⟩ hg he
  obtain ⟨-,rfl⟩ := answer_eq_some he
  rw [World.after,effect_of_harmless _ e (harmless_of_quiet ho),next_of_quiet ho]
  exact ⟨hs,hs,hP w e hg.1 hw⟩

theorem keeps_released {α : Type} {p : Asking α} (hp : p.Only (dryRun · = false)) {w : World}
    (hs : safe terms w) (hw : Released terms w) :
    Holds terms (fun _ w => safe terms w ∧ Released terms w) p w := by
  refine Program.keeps_of_only ?_ hp ⟨hs,hw⟩
  rintro w o e x w' ho ⟨hs,hw⟩ hg he
  obtain ⟨-,rfl⟩ := answer_eq_some he
  have hk := effect_of_justified (e := e) ho (show safe terms (w.moved e) from hs)
    (stable_released w e hg.1 hw).justified
  have hph : (w.after terms o e).phase = .settled := by
    rw [World.after,show w.phase = .settled from hw.settled,next_settled]
  exact ⟨hk.1,hk.1,hph,hk.2⟩

end Kept

section Specs
variable {terms : FollowTerms} {w : World}

theorem justified_of_condemns {o : Op} {e : Event} (hg : meets terms w o e)
    (hc : condemns o e.reply) : Justified terms (w.moved e) := by
  by_contra hn
  exact Bool.false_ne_true ((hg.2.2.2 (Bool.eq_false_iff.2 hn)).symm.trans hc)

theorem released_of_condemns {o : Op} {e : Event} (hg : meets terms w o e)
    (hc : condemns o e.reply) (ho : harmless o) : Released terms (w.after terms o e) := by
  rw [World.after,effect_of_harmless _ e ho]
  exact ⟨by simp [Settled,Phase.next,hc],justified_of_condemns hg hc⟩

theorem after_of_settled {o : Op} {e : Event} (hw : Settled w) (ho : harmless o) :
    w.after terms o e = w.moved e := by
  have hp : (w.moved e).phase = .settled := hw
  rw [World.after,effect_of_harmless _ e ho,show w.phase = .settled from hw,next_settled,← hp]

theorem keeps_start (hs : safe terms w) :
    Holds terms (fun r w => safe terms w ∧
      ∀ detail, r = .error (.postgresRefusedToOpen detail) → Released terms w) start.run w := by
  refine Program.keeps_bind_except (Program.keeps_lift ?_)
  intro e (x : Start) w' hg he
  obtain ⟨hx,rfl⟩ := answer_eq_some he
  refine ⟨hs,?_⟩
  cases x with
  | ready => exact ⟨hs,fun _ h => nomatch h⟩
  | failed detail => exact ⟨hs,fun _ h => nomatch h⟩
  | refused detail =>
    have hc : condemns .start e.reply := by
      rw [reply_of_answer_start hx]
      rfl
    exact ⟨hs,fun _ _ => released_of_condemns hg hc rfl⟩

theorem keeps_reprovisionFrom (hs : safe terms w) (hw : Released terms w) (sourceAddr : Text)
    (lineage : LineageTerm) :
    Holds terms (fun _ w => safe terms w) (reprovisionFrom sourceAddr lineage).run w := by
  have ho : (reprovisionFrom sourceAddr lineage).run.Only (dryRun · = false) :=
    @only_reprovisionFrom (dryRun · = false) (fun _ => rfl) (fun _ => rfl) rfl sourceAddr lineage
  exact (keeps_released ho hs hw).mono fun _ _ h => h.1

theorem covered_of_reports {e : Event} {t : Option Text} (hre : e.reply = .text t)
    (hr : reportsEnd (.executeSql .reportableLsn) e) :
    Covered terms (t.bind fun s => parseLsnLocal (trim s)) (w.moved e) := by
  intro l hl hp
  have ha := hr rfl hp
  rw [hre,reported,hl] at ha
  exact .inl (of_decide_eq_true ha)

/-- The end has been read and the server may still write. -/
structure Read (terms : FollowTerms) (read : Option U64) (w : World) : Prop where
  measured : w.phase = .measured
  covered : Covered terms read w

theorem keeps_capture (hs : safe terms w) (hw : Serving w) :
    Holds terms (fun l w => safe terms w ∧ Read terms l w) captureLsnForRewindGate w := by
  refine Program.keeps_bind ?_
  intro e (t : Option Text) w' hg he
  obtain ⟨ht,rfl⟩ := answer_eq_some he
  have hme : (w.after terms (.executeSql .reportableLsn) e).phase = .measured := by
    rw [World.after,show w.phase = .serving from hw,Phase.next]
    simp [condemns]
  exact ⟨hs,hs,hme,covered_of_reports (reply_of_answer_executeSql ht) hg.2.1⟩

theorem covered_moved {read : Option U64} {e : Event} (h : Read terms read w) (hm : stays terms w e) :
    Covered terms read (w.moved e) := by
  intro l hl hp
  have hns : w.phase ≠ .serving := by
    rw [h.measured]
    decide
  rcases hm hp hns with ⟨hwa,hf⟩ | ⟨-,hb⟩
  · have hpo : w.now.fork < w.now.walEnd := hwa ▸ hf ▸ hp
    have hold := h.covered l hl hpo
    rwa [← hwa,← hf] at hold
  · exact .inr hb

theorem keeps_stop {read : Option U64} (hs : safe terms w) (hr : Read terms read w) :
    Holds terms (fun _ w => safe terms w ∧ Measured terms read w) stop.run w := by
  refine Program.keeps_bind_except (Program.keeps_lift ?_)
  intro e (x : Except Text Unit) w' hg he
  obtain ⟨-,rfl⟩ := answer_eq_some he
  have hph : (w.after terms (.act .stop) e).phase = .settled := by simp [World.after,Phase.next]
  have hm : Measured terms read (w.after terms (.act .stop) e) := ⟨hph,covered_moved hr hg.1⟩
  cases x <;> exact ⟨hs,hs,hm⟩

theorem keeps_timeout_capture {P : World → Prop} (hP : Stable terms P) (hPs : ∀ w, P w → Settled w)
    (hs : safe terms w) (hw : P w) :
    Holds terms (fun r w => safe terms w ∧ P w ∧ r.elim (Released terms w) (Measured terms · w))
      (timeout captureLsnForRewindGate) w := by
  have hca : captureLsnForRewindGate = executeSql .reportableLsn >>= fun t =>
      pure (t.bind fun s => parseLsnLocal (trim s)) := rfl
  rw [hca,timeout_bind]
  refine Program.keeps_bind (@keeps_timeout_ask _ _ _ _ _ (.executeSql .reportableLsn) _ _ ?_)
  intro e (t : Option (Option Text)) w' hg he
  obtain ⟨ht,rfl⟩ := answer_eq_some he
  have hse := hPs w hw
  rw [after_of_settled hse rfl]
  have hk := hP w e hg.1 hw
  refine ⟨hs,?_⟩
  rcases reply_of_answer_within ht with ⟨hel,rfl⟩ | ⟨reply,rfl,hre⟩
  · have hc : condemns (.within (.executeSql .reportableLsn)) e.reply := by
      rw [hel]
      rfl
    exact ⟨hs,hk,hse,justified_of_condemns hg hc⟩
  · exact ⟨hs,hk,hse,covered_of_reports (reply_of_answer_executeSql hre) hg.2.1⟩

/-- An error that has the directory rebuilt leaves one that may be discarded. -/
def Resolved (terms : FollowTerms) {α : Type} (r : Except Error α) (w : World) : Prop :=
  ∀ e, r = .error e → rewindRecovery e = .reprovision → Released terms w

/-- What a successful dry run's plan says of the directory. -/
def Planned (terms : FollowTerms) (plan : Option RewindPlan) (w : World) : Prop :=
  Settled w ∧ match plan with
    | some (.diverged fork) => w.now.named = some fork ∧ (w.now.fork < w.now.walEnd → w.now.fork ≤ fork)
    | some .nothingToDiscard => Justified terms w
    | none => True

theorem stable_planned (plan : Option RewindPlan) : Stable terms (Planned terms plan) := by
  intro w e hm hw
  by_cases hp : e.fork < e.walEnd
  · rwa [moved_eq hw.1 hm hp]
  · refine ⟨hw.1,?_⟩
    match plan with
    | some (.diverged fork) => exact ⟨hw.2.1,fun h => absurd h hp⟩
    | some .nothingToDiscard => exact (stable_released w e hm ⟨hw.1,hw.2⟩).justified
    | none => trivial

theorem gated_of_covers {localLsn fork : U64} (hr : Covered terms (some localLsn) w)
    (hna : w.now.named = some fork) (hfo : w.now.fork < w.now.walEnd → w.now.fork ≤ fork)
    (hpa : w.now.fork < w.now.walEnd) (hc : terms.rewindBudget.covers (localLsn.val-fork.val)) :
    gated terms.rewindBudget w.now := by
  rw [gated,hna,Option.any_some]
  refine Bool.or_eq_true_iff.2 (.inr ?_)
  rcases hr localLsn rfl hpa with he | hb
  · exact covers_mono (Nat.sub_le_sub_right (Fin.le_def.1 he) _) hc
  · exact covers_mono (Nat.sub_le_sub_left (Fin.le_def.1 (hfo hpa)) _) hb

theorem discardVerdict_spec {localLsn : Option U64} {plan : Option RewindPlan}
    (hr : Measured terms localLsn w) (hpl : Planned terms plan w) :
    match discardVerdict terms.rewindBudget localLsn plan with
    | .ok _ => Released terms w
    | .error e => rewindRecovery e = .reprovision → Released terms w := by
  match localLsn,plan with
  | none,_ => exact fun h => nomatch h
  | some _,none => exact fun h => nomatch h
  | some _,some .nothingToDiscard => exact ⟨hpl.1,hpl.2⟩
  | some localLsn,some (.diverged fork) =>
    have hp : (∀ bytes, rewindDivergenceDecision localLsn fork terms.rewindBudget ≠ .refuse bytes) →
        Released terms w := by
      intro h
      refine ⟨hr.settled,?_⟩
      by_cases hpa : w.now.fork < w.now.walEnd
      · have hg := gated_of_covers hr.covered hpl.2.1 hpl.2.2 hpa (covers_of_decision_ne_refuse h)
        simp [Justified,justified,hg]
      · simp [Justified,justified,not_lt.1 hpa]
    cases hd : rewindDivergenceDecision localLsn fork terms.rewindBudget with
    | safe =>
      simp only [discardVerdict,hd]
      exact hp (by simp [hd])
    | withinTolerance bytes =>
      simp only [discardVerdict,hd]
      exact hp (by simp [hd])
    | refuse bytes =>
      simp only [discardVerdict,hd]
      exact fun h => nomatch h

variable {read : Option U64}

theorem keeps_timeout_wait (hs : safe terms w) (hw : Measured terms read w) :
    Holds terms (fun r w => safe terms w ∧ Measured terms read w ∧
      r.elim (Released terms w) (Resolved terms · w)) (timeout waitForRewindSource.run) w := by
  refine keeps_timeout_bind (keeps_timeout_lift
    (@keeps_timeout_ask _ _ _ _ _ (.act .waitForRewindSource) _ _ ?_))
  intro e (x : Option (Except Text Unit)) w' hg he
  obtain ⟨hx,rfl⟩ := answer_eq_some he
  rw [after_of_settled hw.settled rfl]
  have hm := stable_measured read w e hg.1 hw
  refine ⟨hs,?_⟩
  rcases reply_of_answer_within hx with ⟨hel,rfl⟩ | ⟨y,rfl,-⟩
  · have hc : condemns (.within (.act .waitForRewindSource)) e.reply := by
      rw [hel]
      rfl
    exact ⟨hs,hm,hw.settled,justified_of_condemns hg hc⟩
  · cases y with
    | ok _ => exact ⟨hs,hm,fun _ h => nomatch h⟩
    | error detail =>
      refine ⟨hs,hm,fun e h hr => ?_⟩
      cases h
      cases hr

/-- What a dry run leaves: a plan that speaks of the directory, or nothing the directory is given up
for without leave. -/
def DryRunLeft (terms : FollowTerms) (w : World) : Except Error (Bool × Text) → Prop
  | .ok (true,output) => Planned terms (parseRewindPlan output) w
  | .ok (false,stderr) => foreignLineage stderr = true → Released terms w
  | .error e => rewindRecovery e = .reprovision → Released terms w

theorem effect_dryRun {e : Event} (h : ∀ output, e.reply ≠ .ran (.exited true output)) :
    w.effect terms e (.within (.pgRewind true)) = w := by
  rw [World.effect,World.effect]
  split
  · next output hr => exact absurd hr (h output)
  · rfl

theorem keeps_timeout_dryRun (hs : safe terms w) (hw : Measured terms read w) :
    Holds terms (fun r w => safe terms w ∧ Measured terms read w ∧
      r.elim (Released terms w) (DryRunLeft terms w)) (timeout (runPgRewindAttempt true).run) w := by
  refine keeps_timeout_bind (keeps_timeout_lift (@keeps_timeout_ask _ _ _ _ _ (.pgRewind true) _ _ ?_))
  intro e (x : Option Attempt) w' hg he
  obtain ⟨hx,rfl⟩ := answer_eq_some he
  have hse := hw.settled
  have hm := stable_measured read w e hg.1 hw
  have hl : condemns (.within (.pgRewind true)) e.reply → Released terms (w.moved e) :=
    fun hc => ⟨hse,justified_of_condemns hg hc⟩
  have haf : ∀ v : World, v.phase = .settled → (w.moved e).effect terms e (.within (.pgRewind true)) = v →
      w.after terms (.within (.pgRewind true)) e = v := by
    intro v hv he
    rw [World.after,he,show w.phase = .settled from hse,next_settled,← hv]
  have hun : (∀ output, e.reply ≠ .ran (.exited true output)) →
      w.after terms (.within (.pgRewind true)) e = w.moved e :=
    fun h => haf _ hse (effect_dryRun h)
  rcases reply_of_answer_within hx with ⟨hel,rfl⟩ | ⟨y,rfl,hy⟩
  · rw [hun (by simp [hel])]
    exact ⟨hs,hs,hm,hl (by rw [hel]; rfl)⟩
  · have hr := reply_of_answer_pgRewind hy
    rw [hr] at hl
    cases y with
    | spawnFailed error =>
      rw [hun (by simp [hr])]
      exact ⟨hs,hs,hm,fun h => nomatch h⟩
    | unwaitable error =>
      rw [hun (by simp [hr])]
      exact ⟨hs,hs,hm,fun _ => hl rfl⟩
    | overran =>
      rw [hun (by simp [hr])]
      exact ⟨hs,hs,hm,fun _ => hl rfl⟩
    | exited success output =>
      cases success with
      | false =>
        rw [hun (by simp [hr])]
        exact ⟨hs,hs,hm,fun h => hl h⟩
      | true =>
        have hpl : ∀ v : World, Planned terms (parseRewindPlan output) v →
            DryRunLeft terms v (.ok (true,output)) := fun _ h => h
        cases hp : parseRewindPlan output with
        | none =>
          rw [haf (w.moved e) hse (by simp [World.effect,hr,hp])]
          exact ⟨hs,hs,hm,hpl _ ⟨hse,by simp [hp]⟩⟩
        | some plan =>
          cases plan with
          | nothingToDiscard =>
            rw [haf (w.moved e) hse (by simp [World.effect,hr,hp])]
            refine ⟨hs,hs,hm,hpl _ ⟨hse,?_⟩⟩
            rw [hp]
            exact (hl (decide_eq_true hp)).justified
          | diverged fork =>
            rw [haf {w.moved e with now := {(w.moved e).now with named := some fork}} hse
              (by simp [World.effect,hr,hp])]
            refine ⟨hs,hs,⟨hse,hm.covered⟩,hpl _ ⟨hse,?_⟩⟩
            rw [hp]
            refine ⟨rfl,fun h => ?_⟩
            have hn := hg.2.2.1 rfl h
            simpa [namedFork,hr,hp,World.moved] using hn

theorem keeps_timeout_check {plan : Option RewindPlan} (hs : safe terms w)
    (hre : Measured terms read w) (hp : Planned terms plan w) :
    Holds terms (fun r w => safe terms w ∧ r.elim (Released terms w) fun r => match r with
        | .ok _ => Released terms w
        | .error e => rewindRecovery e = .reprovision → Released terms w)
      (timeout (checkRewindDiscard read plan terms.rewindBudget).run) w := by
  cases read with
  | some l => exact ⟨hs,discardVerdict_spec hre hp⟩
  | none =>
    refine keeps_timeout_bind (keeps_timeout_lift ?_)
    refine (keeps_timeout_capture (stable_planned plan) (fun _ h => h.1) hs hp).mono ?_
    rintro (_ | l) w ⟨hs,hp,hr⟩
    · exact ⟨hs,hr⟩
    · exact ⟨hs,discardVerdict_spec hr hp⟩

theorem keeps_timeout_rewindRuns (hs : safe terms w) (hw : Released terms w) (sourceAddr : Text)
    (left : ℕ) : Holds terms (fun _ w => safe terms w ∧ Released terms w)
      (timeout (rewindRuns sourceAddr left).run) w := by
  have ho := @only_rewindRuns (dryRun · = false) rfl rfl rfl sourceAddr left
  exact keeps_released (only_timeout (fun _ h => h) ho) hs hw

theorem keeps_timeout_rewindWithinBudget (hs : safe terms w) (hre : Measured terms read w)
    (sourceAddr : Text) :
    Holds terms (fun r w => safe terms w ∧ r.elim (Released terms w) (Resolved terms · w))
      (timeout (rewindWithinBudget sourceAddr read terms.rewindBudget).run) w := by
  refine keeps_timeout_bind ((keeps_timeout_wait hs hre).mono ?_)
  rintro (_ | e | _) w ⟨hs,hre,hr⟩
  · exact ⟨hs,hr⟩
  · exact ⟨hs,fun e' h => hr e' h⟩
  · refine keeps_timeout_bind ((keeps_timeout_dryRun hs hre).mono ?_)
    rintro (_ | e | ⟨success,output⟩) w ⟨hs,hre,hr⟩
    · exact ⟨hs,hr⟩
    · refine ⟨hs,fun e' h => ?_⟩
      cases h
      exact hr
    · cases success with
      | false =>
        refine ⟨hs,fun e h hrc => ?_⟩
        cases h
        exact hr (foreignLineage_of_reprovision hrc)
      | true =>
        refine keeps_timeout_bind ((keeps_timeout_check hs hre hr).mono ?_)
        rintro (_ | e | _) w ⟨hs,hr⟩
        · exact ⟨hs,hr⟩
        · refine ⟨hs,fun e' h => ?_⟩
          cases h
          exact hr
        · refine (keeps_timeout_rewindRuns hs hr sourceAddr _).mono fun r w h => ⟨h.1,?_⟩
          cases r with
          | none => exact h.2
          | some r => exact fun _ _ _ => h.2

theorem keeps_runPgRewind (hs : safe terms w) (hre : Measured terms read w) (sourceAddr : Text) :
    Holds terms (fun r w => safe terms w ∧ Resolved terms r w)
      (runPgRewind sourceAddr read terms.rewindBudget).run w := by
  refine Program.keeps_bind ((keeps_timeout_rewindWithinBudget hs hre sourceAddr).mono ?_)
  rintro (_ | r) w ⟨hs,hr⟩
  · exact ⟨hs,fun _ _ _ => hr⟩
  · exact ⟨hs,hr⟩

theorem keeps_replayCanContinue (hs : safe terms w) :
    Holds terms (fun r w => safe terms w ∧ (r = some false → Released terms w)) replayCanContinue w := by
  refine Program.keeps_bind ((keeps_harmless (only_ask rfl) hs).mono ?_)
  rintro (t : Option Text) w hs
  split
  · exact ⟨hs,fun h => nomatch h⟩
  · split
    · exact ⟨hs,fun h => nomatch h⟩
    · refine Program.keeps_bind ((keeps_harmless (only_queryPeer rfl) hs).mono ?_)
      rintro t w hs
      split
      · exact ⟨hs,fun h => nomatch h⟩
      · next needed retained _ =>
        split
        · exact ⟨hs,fun h => nomatch h⟩
        · refine Program.keeps_bind ?_
          intro e (t : Option Text) w' hg he
          obtain ⟨ht,rfl⟩ := answer_eq_some he
          refine ⟨hs,hs,fun hn => released_of_condemns hg ?_ rfl⟩
          rw [reply_of_answer_executeSql ht]
          exact decide_eq_true hn

/-- A decision to rewind is reached with the server as it was, and one to rebuild only for a directory that
may be discarded. -/
def Decided (terms : FollowTerms) (r : StandbyAction) (w : World) : Prop :=
  (r = .rewind → Serving w) ∧ (r = .reprovision → Released terms w)

theorem decided_of_serving {r : StandbyAction} (hw : Serving w) (hr : r ≠ .reprovision) :
    Decided terms r w := ⟨fun _ => hw,fun h => absurd h hr⟩

theorem keeps_classifyStreamingGap (hs : safe terms w) (hw : Serving w) :
    Holds terms (fun r w => safe terms w ∧ Decided terms r w) classifyStreamingGap w := by
  have ho := @only_localAheadOfLeader (quiet ·) rfl fun _ => rfl
  refine Program.keeps_bind ((keeps_quiet stable_serving ho hs hw).mono ?_)
  rintro localAhead w ⟨hs,hw⟩
  dsimp only
  split
  · next hb =>
    refine Program.keeps_bind ((keeps_replayCanContinue hs).mono ?_)
    rintro canContinue w ⟨hs,hr⟩
    subst hb
    match canContinue with
    | some false => exact ⟨hs,(by simp [streamingGapAction]),fun _ => hr rfl⟩
    | some true => exact ⟨hs,(by simp [streamingGapAction]),by simp [streamingGapAction]⟩
    | none => exact ⟨hs,(by simp [streamingGapAction]),by simp [streamingGapAction]⟩
  · next hb =>
    match localAhead with
    | some false => exact absurd rfl hb
    | some true => exact ⟨hs,decided_of_serving hw (by decide)⟩
    | none => exact ⟨hs,decided_of_serving hw (by decide)⟩

theorem keeps_decideStandbyAction (hs : safe terms w) (hw : Serving w) (lineage : LineageTerm) :
    Holds terms (fun r w => safe terms w ∧ Decided terms r w) (decideStandbyAction lineage) w := by
  have ht := @only_checkTimelineState (quiet ·) rfl (fun _ => rfl) lineage
  refine Program.keeps_bind ((keeps_quiet stable_serving (only_ask rfl) hs hw).mono ?_)
  rintro (configChanged : Bool) w ⟨hs,hw⟩
  cases configChanged with
  | true =>
    refine Program.keeps_bind ((keeps_quiet stable_serving ht hs hw).mono ?_)
    rintro (_ | _ | _ | _) w ⟨hs,hw⟩
    · exact ⟨hs,decided_of_serving hw (by decide)⟩
    · have ha := @only_localAheadOfLeader (quiet ·) rfl fun _ => rfl
      refine Program.keeps_bind ((keeps_quiet stable_serving ha hs hw).mono ?_)
      rintro (_ | _ | _) w ⟨hs,hw⟩ <;> exact ⟨hs,decided_of_serving hw (by decide)⟩
    · exact ⟨hs,decided_of_serving hw (by decide)⟩
    · exact ⟨hs,decided_of_serving hw (by decide)⟩
  | false =>
    have hst : streamingActive.Only (quiet ·) :=
      Program.only_bind (only_ask rfl) fun _ => trivial
    refine Program.keeps_bind ((keeps_quiet stable_serving hst hs hw).mono ?_)
    rintro (_ | _) w ⟨hs,hw⟩
    · refine Program.keeps_bind ((keeps_quiet stable_serving ht hs hw).mono ?_)
      rintro (_ | _ | _ | _) w ⟨hs,hw⟩
      · exact keeps_classifyStreamingGap hs hw
      · exact ⟨hs,decided_of_serving hw (by decide)⟩
      · exact ⟨hs,decided_of_serving hw (by decide)⟩
      · exact ⟨hs,decided_of_serving hw (by decide)⟩
    · exact ⟨hs,decided_of_serving hw (by decide)⟩

theorem keeps_harmless_bind {α β : Type} {p : Fallible α} {f : α → Fallible β}
    (hp : p.run.Only (harmless ·)) (hs : safe terms w)
    (hf : ∀ a w, safe terms w → Holds terms (fun _ w => safe terms w) (f a).run w) :
    Holds terms (fun _ w => safe terms w) (p >>= f).run w := by
  refine Program.keeps_bind_except ((keeps_harmless hp hs).mono ?_)
  rintro (e | a) w hs
  · exact hs
  · exact hf a w hs

theorem keeps_rewindOntoLeader (hs : safe terms w) (hrd : Measured terms read w) (newLeaderAddr : Text) :
    Holds terms (fun _ w => safe terms w) (rewindOntoLeader newLeaderAddr read terms).run w := by
  refine keeps_caught ((keeps_runPgRewind hs hrd newLeaderAddr).mono ?_)
  rintro (e | _) w ⟨hs,hr⟩
  · dsimp only
    split
    · refine keeps_harmless_bind (only_act rfl) hs fun _ w hs => ?_
      refine keeps_harmless_bind (only_act rfl) hs fun _ w hs => ?_
      refine keeps_caught ((keeps_start hs).mono ?_)
      rintro r w ⟨hs,hr⟩
      split
      · next detail =>
        refine Program.keeps_bind_except ?_
        refine (keeps_reprovisionFrom hs (hr detail rfl) newLeaderAddr terms.lineage).mono ?_
        rintro (_ | _) w hs <;> exact hs
      · exact hs
    · next hre =>
      refine Program.keeps_bind_except ?_
      refine (keeps_reprovisionFrom hs (hr e rfl hre) newLeaderAddr terms.lineage).mono ?_
      rintro (_ | _) w hs <;> exact hs
  · exact keeps_harmless_bind (only_act rfl) hs fun _ w hs => hs

theorem keeps_repointStandby (hs : safe terms w) (hw : Serving w) (newLeaderAddr : Text) :
    Holds terms (fun _ w => safe terms w) (repointStandby newLeaderAddr terms).run w := by
  refine Program.keeps_bind_except (Program.keeps_lift ?_)
  refine (keeps_decideStandbyAction hs hw terms.lineage).mono ?_
  rintro (_ | _ | _ | _ | _) w ⟨hs,hsv,hr⟩
  · exact hs
  · exact hs
  · exact keeps_harmless_bind (only_act rfl) hs fun _ w hs => keeps_harmless (only_act rfl) hs
  · refine Program.keeps_bind_except (Program.keeps_lift ((keeps_capture hs (hsv rfl)).mono ?_))
    rintro read w ⟨hs,hre⟩
    refine Program.keeps_bind_except ((keeps_stop hs hre).mono ?_)
    rintro (_ | _) w ⟨hs,hre⟩
    · exact hs
    · refine Program.keeps_bind_except ((keeps_rewindOntoLeader hs hre newLeaderAddr).mono ?_)
      rintro (_ | _ | _) w hs
      · exact hs
      · exact keeps_harmless_bind (only_act rfl) hs fun _ w hs => keeps_harmless (only_start rfl) hs
      · exact hs
  · exact keeps_reprovisionFrom hs (hr rfl) newLeaderAddr terms.lineage

theorem keeps_restartOrRepairStandby (hs : safe terms w) (newLeaderAddr : Text) (lineage : LineageTerm) :
    Holds terms (fun _ w => safe terms w) (restartOrRepairStandby newLeaderAddr lineage).run w := by
  refine keeps_harmless_bind (only_act rfl) hs fun _ w hs => ?_
  refine keeps_caught ((keeps_start hs).mono ?_)
  rintro r w ⟨hs,hr⟩
  split
  · exact hs
  · next detail => exact keeps_reprovisionFrom hs (hr detail rfl) newLeaderAddr lineage
  · exact hs

theorem keeps_demotePrimary (hs : safe terms w) (hw : Serving w) (newLeaderAddr : Text) :
    Holds terms (fun _ w => safe terms w) (demotePrimary newLeaderAddr terms).run w := by
  have ht := @only_checkTimelineState (quiet ·) rfl (fun _ => rfl) terms.lineage
  refine Program.keeps_bind_except (Program.keeps_lift ((keeps_quiet stable_serving ht hs hw).mono ?_))
  rintro timeline w ⟨hs,hw⟩
  dsimp only
  split
  · exact hs
  · refine Program.keeps_bind_except (Program.keeps_lift ((keeps_capture hs hw).mono ?_))
    rintro read w ⟨hs,hrd⟩
    refine Program.keeps_bind_except ((keeps_stop hs hrd).mono ?_)
    rintro (_ | _) w ⟨hs,hrd⟩
    · exact hs
    · refine keeps_caught ((keeps_runPgRewind hs hrd newLeaderAddr).mono ?_)
      rintro (e | _) w ⟨hs,hr⟩
      · dsimp only
        split
        · exact hs
        · next hre => exact keeps_reprovisionFrom hs (hr e rfl hre) newLeaderAddr terms.lineage
      · refine keeps_harmless_bind (only_act rfl) hs fun _ w hs => ?_
        refine keeps_harmless_bind (only_act rfl) hs fun _ w hs => ?_
        refine keeps_harmless_bind (only_start rfl) hs fun _ w hs => ?_
        refine keeps_harmless_bind (@only_isInRecovery (harmless ·) rfl _) hs fun inRecovery w hs => ?_
        cases inRecovery <;> exact hs

theorem keeps_demote (hs : safe terms w) (hw : Serving w) (newLeaderAddr : Text) :
    Holds terms (fun _ w => safe terms w) (demote newLeaderAddr terms).run w := by
  refine Program.keeps_bind_except (Program.keeps_lift
    ((keeps_quiet stable_serving (only_ask rfl) hs hw).mono ?_))
  rintro (state : Except Text PostmasterState) w ⟨hs,hw⟩
  dsimp only
  split
  · exact hs
  · exact keeps_restartOrRepairStandby hs newLeaderAddr terms.lineage
  · refine Program.keeps_bind_except
      ((keeps_quiet stable_serving (@only_isInRecovery (quiet ·) rfl _) hs hw).mono ?_)
    rintro (_ | _ | _) w ⟨hs,hw⟩
    · exact hs
    · exact keeps_demotePrimary hs hw newLeaderAddr
    · exact keeps_repointStandby hs hw newLeaderAddr

def World.start (lineage walEnd fork : U64) : World := {now := {lineage, walEnd, fork}}

/-- In every run of `demote` within `meets`, whatever is asked is answered, local WAL past the fork is
discarded only past the gate, under an unbounded budget or from a foreign directory. -/
theorem discard_only_gated (newLeaderAddr : Text) (terms : FollowTerms) (lineage walEnd fork : U64)
    (es : List Event) (w : World) (rest : Asking (Except Error Unit))
    (hg : Guarded (Program.step (answer terms)) (Program.asked (meets terms))
      (World.start lineage walEnd fork,(demote newLeaderAddr terms).run) es)
    (hrun : run (Program.step (answer terms))
      (World.start lineage walEnd fork,(demote newLeaderAddr terms).run) es = some (w,rest)) :
    safe terms w := by
  have hs : safe terms (World.start lineage walEnd fork) := fun s hm => nomatch hm
  exact Program.run_keeps (keeps_demote hs rfl newLeaderAddr) hs hg hrun

end Specs

section Runs

def asyncTerms : FollowTerms := ⟨.bytes 16777216,.committed (some 7)⟩
def leaderAddr : Text := "10.0.0.2:5432".toList

def still (reply : Reply) : Event := {walEnd := 200000000, fork := 100000000, reply}
def text (s : String) : Event := still (.text (some s.toList))
def done : Event := still (.done (.ok ()))

def formerPrimary : List Event :=
  [still (.state (.ok .running)),still (.recovery (.ok false)),still (.timeline (some 1)),
    text "000000020000000000000004|7"]

def forkAt (lsn : U64) : Reply :=
  .ran (.exited true ("pg_rewind: servers diverged at WAL location ".toList++lsnText lsn))

/-- A former primary with 10 MB past the fork, which the gate lets `pg_rewind` discard with the checkpoint
that the stop has written. -/
def rewound : List Event :=
  ((formerPrimary++[still (.text (some (lsnText 110000000)))]).map fun e => {e with walEnd := 110000000})++
    [done,done,still (forkAt 100000000),{still (.ran (.exited true [])) with touched := true},done,done,
      done,still (.started .ready),still (.recovery (.ok true))].map fun e => {e with walEnd := 110000120}

theorem discard_only_gated_rewound :
    (run (Program.step (answer asyncTerms))
      (World.start 7 110000000 100000000,(demote leaderAddr asyncTerms).run) rewound).any
        (fun c => c.1.discarded.any fun s => s.fork < s.walEnd) = true ∧
    ∀ w rest, run (Program.step (answer asyncTerms))
      (World.start 7 110000000 100000000,(demote leaderAddr asyncTerms).run) rewound = some (w,rest) →
      safe asyncTerms w :=
  ⟨by decide +kernel,fun w rest hr =>
    discard_only_gated leaderAddr asyncTerms 7 110000000 100000000 rewound w rest (by decide +kernel) hr⟩

def standby : List Event :=
  [still (.state (.ok .running)),still (.recovery (.ok true)),still (.flag false),text "0",
    still (.timeline (some 1))]

def stopped : List Event := [still (.text (some (lsnText 200000000))),done,done]

def rebuilt : List Event := [text "7",done,done]

/-- Runs that lose 100 MB under a budget of 16 MiB: a stopped directory PostgreSQL does not open; a dry
run that takes the whole budget; a dry run against a foreign cluster that then gave way to the right one;
a refusal of the gate after which PostgreSQL does not open; a standby said to have nothing to replay; WAL
received between the reading of its end and the stop; and a restarted standby that has not yet replayed what
it holds, and reports how far it has. -/
def ungated : List (List Event) :=
  [[still (.state (.ok .notRunning)),done,still (.started (.refused []))]++rebuilt,
    formerPrimary++stopped++[still (.ran .overran)]++rebuilt,
    formerPrimary++stopped++
      [still (.ran (.exited false "source and target clusters are from different systems".toList))]++rebuilt,
    standby++[text "000000020000000000000004|7"]++stopped++
      [still (forkAt 100000000),done,done,still (.started (.refused []))]++rebuilt,
    standby++[text "000000010000000000000004|7",text "0/5000000",text "0/9000000",text "0/5000000",
      text "000000010000000000000005|f",text "f"]++rebuilt,
    formerPrimary++[{still (.text (some (lsnText 100000010))) with walEnd := 100000010},done,done,
      still (forkAt 100000000),{still (.ran (.exited true [])) with touched := true}],
    standby++[text "000000020000000000000004|7",still (.text (some (lsnText 100000010))),done,done,
      still (forkAt 100000000),{still (.ran (.exited true [])) with touched := true}]]

theorem discard_ungated : ungated.Forall fun es => ∃ c, run (Program.step (answer asyncTerms))
    (World.start 7 200000000 100000000,(demote leaderAddr asyncTerms).run) es = some c ∧
    ¬safe asyncTerms c.1 := by
  have ha : ungated.all (fun es => (run (Program.step (answer asyncTerms))
      (World.start 7 200000000 100000000,(demote leaderAddr asyncTerms).run) es).any fun c =>
        c.1.discarded.any fun s => !justified asyncTerms s) := by decide +kernel
  rw [forall_iff_forall_mem]
  intro es hes
  obtain ⟨c,hr,hc⟩ := (Option.any_eq_true _ _).1 (all_eq_true.1 ha es hes)
  obtain ⟨s,hm,hs⟩ := any_eq_true.1 hc
  refine ⟨c,hr,fun hsa => ?_⟩
  rw [hsa s hm] at hs
  cases hs

end Runs
end RewindGate
end PgBattery
