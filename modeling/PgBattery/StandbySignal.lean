import PgBattery.Restore

/-! Whether a directory that must follow can come up as a primary: the standby signal through rewinds
and restores that fail or are cut off anywhere, and the boots and reconcile passes after them. -/
namespace PgBattery
namespace StandbySignal
open SqlReply Rewind Following Restore Interaction TransitionSystem List Program

/-- What boot and repair look at in a data directory. `modified` says that `pg_rewind` modified it or a
full restore put it there. -/
structure Files where
  pgVersion : Bool := false
  pgControl : Bool := false
  postgresqlConf : Bool := false
  standbySignal : Bool := false
  modified : Bool := false
  deriving DecidableEq

/-- What a removal that stopped partway leaves. -/
def Files.cut (f leaves : Files) : Files where
  pgVersion := f.pgVersion && leaves.pgVersion
  pgControl := f.pgControl && leaves.pgControl
  postgresqlConf := f.postgresqlConf && leaves.postgresqlConf
  standbySignal := f.standbySignal && leaves.standbySignal
  modified := f.modified

def Files.looksValid (f : Files) : Bool := f.pgVersion && f.pgControl

/-- PostgreSQL would start on it, as a primary, though it must follow. -/
def Files.exposed (f : Files) : Bool := f.modified && f.postgresqlConf && !f.standbySignal

/-- The data directory, the copies staged beside it, newest first, the lineage the call at hand must
follow, and the directories PostgreSQL was started on. -/
structure World where
  dir : Option Files
  staged : List Files := []
  lineage : LineageTerm := .unenforced
  started : List Files := []
  deriving DecidableEq

/-- A reply. `touched` says of what can be begun without being answered for that it was: `pg_rewind`
modified the directory, the postmaster was spawned, a rename was made. `leaves` is what it left. -/
structure Event where
  reply : Reply
  touched : Bool := false
  leaves : Files := {}

def World.exposed (w : World) : Bool := w.dir.any Files.exposed

def safe (w : World) : Prop := ∀ f ∈ w.started, f.modified = true → f.standbySignal = true

section Semantics

def Reply.succeeded : Reply → Bool
  | .done (.ok _) => true
  | .found (.ok b) => b
  | _ => false

/-- A copy of the leader's directory; `pg_basebackup -R` writes the signal. -/
def Files.clone : Files where
  pgVersion := true
  pgControl := true
  postgresqlConf := true
  standbySignal := true

def Files.fresh : Files where
  pgVersion := true
  pgControl := true
  postgresqlConf := true

def World.rename (w : World) : World := {w with dir := w.staged.head?, staged := w.staged.tail}

def World.act (w : World) (e : Event) : Act → World
  | .ensureStandbySignal =>
    {w with dir := w.dir.map fun f =>
      {f with standbySignal := f.standbySignal || Reply.succeeded e.reply || e.leaves.standbySignal}}
  | .clearDirContents =>
    {w with dir := w.dir.map fun f => if Reply.succeeded e.reply then {} else f.cut e.leaves}
  | .pgBasebackup =>
    {w with dir := some (if Reply.succeeded e.reply then .clone else {e.leaves with modified := false})}
  | .createDataDir => if Reply.succeeded e.reply then {w with dir := some (w.dir.getD {})} else w
  | .extractBackup => {w with dir := some {e.leaves with modified := true}}
  | .removeStaged =>
    {w with staged := (if Reply.succeeded e.reply then [] else w.staged.head?.toList.map (·.cut e.leaves))++
      w.staged.tail}
  | .removeDataDir =>
    {w with dir := if Reply.succeeded e.reply then none else w.dir.map (·.cut e.leaves)}
  | .renameStagedBack => if Reply.succeeded e.reply || e.touched then w.rename else w
  | .initDb =>
    {w with dir :=
      if Reply.succeeded e.reply then some .fresh
      else if e.touched then some {e.leaves with modified := false}
      else w.dir.map (·.cut e.leaves)}
  | .stop | .reloadConfig | .configureStandby | .waitForRewindSource | .prepareRestore => w

def World.effect (w : World) (e : Event) : Op → World
  | .within o => w.effect e o
  | .act a => w.act e a
  | .pgRewind false =>
    if e.touched then {w with dir := w.dir.map fun _ => {e.leaves with modified := true}} else w
  | .start => if e.touched then {w with started := w.dir.toList++w.started} else w
  | .stageExistingDataDir =>
    if Reply.succeeded e.reply || e.touched then {w with dir := none, staged := w.dir.toList++w.staged}
    else w
  | _ => w

/-- What there is to see of the directory; the rest is the environment's. -/
def World.sees (w : World) : Look → Option Bool
  | .pgVersion => some (w.dir.any (·.pgVersion))
  | .standbySignal => some (w.dir.any (·.standbySignal))
  | .pgdataExists => some w.dir.isSome
  | .pgdataLooksValid => some (w.dir.any Files.looksValid)
  | .peerListsThisNode | .leadsRaft => none

/-- The replies that can be given: what is looked at is seen as it is, PostgreSQL is not spawned without
its configuration, and a directory is not renamed over another. -/
def World.allows (w : World) (e : Event) : Op → Bool
  | .within o => w.allows e o
  | .look q =>
    match e.reply with
    | .flag b => (w.sees q).all (b = ·)
    | _ => true
  | .findPreRestoreStaging =>
    match e.reply with
    | .found (.ok b) => b = !w.staged.isEmpty
    | _ => true
  | .stageExistingDataDir =>
    match e.reply with
    | .found (.ok b) => b = w.dir.isSome
    | _ => true
  | .start =>
    match e.reply with
    | .started .ready => e.touched && w.dir.any (·.postgresqlConf)
    | _ => !e.touched || w.dir.any (·.postgresqlConf)
  | .pgRewind _ =>
    match e.reply with
    | .ran (.spawnFailed _) => !e.touched
    | _ => true
  | .act .ensureStandbySignal => !Reply.succeeded e.reply || w.dir.isSome
  | .act .renameStagedBack =>
    !(Reply.succeeded e.reply || e.touched) || ((w.dir.getD {}) = {} && !w.staged.isEmpty)
  | _ => true

def answer (w : World) (o : Op) (e : Event) : Option (Ans o × World) :=
  if w.allows e o then (e.reply.answer o).map fun x => (x,w.effect e o) else none

/-- The reply fails what was asked for, or does not prove the source's lineage. -/
def fails (lineage : LineageTerm) : Op → Reply → Bool
  | .act _, .done (.error _) => true
  | .queryPeer .lineage, .text t => !servesClusterLineage lineage ((t.map trim).bind parseU64)
  | .within _, .elapsed => true
  | .within o, reply => fails lineage o reply
  | _, _ => false

/-- The operations that put in place a tree without the signal. -/
def exposes : Op → Bool
  | .within o => exposes o
  | .pgRewind dryRun => !dryRun
  | .act .extractBackup => true
  | _ => false

/-- The directory was modified by a run that says it failed before that. -/
def misreports (e : Event) : Op → Bool
  | .within o => misreports e o
  | .pgRewind false =>
    match e.reply with
    | .ran (.exited false stderr) => e.touched && pgRewindFailureIsPreCopy stderr
    | _ => false
  | _ => false

def World.stagedCovered (w : World) : Bool := w.staged.all (!·.exposed)

/-- While the directory is exposed nothing fails; nothing but a rewind and a restore exposes it, and
nothing exposes a staged copy; and `pg_rewind` does not misreport how far it came. -/
def meets (w : World) (o : Op) (e : Event) : Prop :=
  (w.exposed = true → fails w.lineage o e.reply = false) ∧
    (w.effect e o).stagedCovered = true ∧
    (exposes o = false → w.exposed = false → (w.effect e o).exposed = false) ∧
    misreports e o = false

instance instDecidableMeets (w : World) (o : Op) (e : Event) : Decidable (meets w o e) := by
  unfold meets
  infer_instance

/-- A boot does not come upon an exposed directory, or rolls it back. -/
def World.sheltered (w : World) : Bool :=
  !w.exposed || (!w.staged.isEmpty && !w.dir.any Files.looksValid)

inductive Proc
  | down
  | idle
  | busy (booting : Bool) (p : Asking (Except Error Unit))

/-- A boot that fails ends the process. -/
def Proc.resume (booting : Bool) : Asking (Except Error Unit) → Proc
  | .pure (.ok _) => .idle
  | .pure (.error _) => if booting then .down else .idle
  | .ask o k => .busy booting (.ask o k)

structure Node where
  world : World
  proc : Proc

/-- `crash` ends the process during what it asks for, whose effect is the event's. -/
inductive Input
  | reply (e : Event)
  | crash (e : Event)
  | boot (bootstrap : Bool)
  | demote (newLeaderAddr : Text) (terms : FollowTerms)
  | restore
  | promoted

def step (n : Node) : Input → Option Node
  | .reply e =>
    match n.proc with
    | .busy booting p => (Program.step answer (n.world,p) e).map fun c => ⟨c.1,.resume booting c.2⟩
    | _ => none
  | .crash e =>
    match n.proc with
    | .busy _ (.ask o _) => if n.world.allows e o then some ⟨n.world.effect e o,.down⟩ else none
    | .idle => some {n with proc := .down}
    | _ => none
  | .boot bootstrap =>
    match n.proc with
    | .down => some {n with proc := .resume true (startSupervisorForMode bootstrap).run}
    | _ => none
  | .demote newLeaderAddr terms =>
    match n.proc with
    | .idle =>
      some ⟨{n.world with lineage := terms.lineage},.resume false (Following.demote newLeaderAddr terms).run⟩
    | _ => none
  | .restore =>
    match n.proc with
    | .idle => some {n with proc := .resume false executeFullRestore.run}
    | _ => none
  | .promoted =>
    match n.proc with
    | .idle =>
      some {n with world := {n.world with dir := n.world.dir.map fun f =>
        {f with standbySignal := false, modified := false}}}
    | _ => none

/-- `meets` of every reply, and no crash that leaves an exposed directory to a boot. -/
def meetsInput (n : Node) : Input → Prop
  | .reply e =>
    match n.proc with
    | .busy _ p => Program.asked meets (n.world,p) e
    | _ => True
  | .crash e =>
    match n.proc with
    | .busy _ (.ask o _) =>
      (n.world.effect e o).stagedCovered = true ∧ (n.world.effect e o).sheltered = true
    | _ => True
  | _ => True

instance instDecidableMeetsInput (n : Node) (i : Input) : Decidable (meetsInput n i) := by
  unfold meetsInput
  split
  · split <;> infer_instance
  · split <;> infer_instance
  · infer_instance

end Semantics

section Kept
variable {lineage : LineageTerm} {w w' : World} {e : Event} {o : Op}

def Inv (lineage : LineageTerm) (w : World) : Prop :=
  safe w ∧ w.stagedCovered = true ∧ w.lineage = lineage

def Covered (w : World) : Prop := w.exposed = false

abbrev Holds (lineage : LineageTerm) {α : Type} (post : α → World → Prop) (p : Asking α) (w : World) :
    Prop := p.Keeps answer meets (Inv lineage) post w

theorem answer_eq_some {x : Ans o} (h : answer w o e = some (x,w')) :
    w.allows e o ∧ e.reply.answer o = some x ∧ w' = w.effect e o := by
  obtain ⟨ha,hm⟩ := Option.ite_none_right_eq_some.1 h
  obtain ⟨x,hx,⟨⟩⟩ := Option.map_eq_some_iff.1 hm
  exact ⟨ha,hx,rfl⟩

def startsServer : Op → Bool
  | .within o => startsServer o
  | .start => true
  | _ => false

theorem lineage_act (a : Act) : (w.act e a).lineage = w.lineage := by
  cases a <;> simp only [World.act] <;> split <;> rfl

theorem started_act (a : Act) : (w.act e a).started = w.started := by
  cases a <;> simp only [World.act] <;> split <;> rfl

theorem lineage_effect : (w.effect e o).lineage = w.lineage := by
  induction o with
  | within o ih => exact ih
  | act a => exact lineage_act a
  | pgRewind dryRun =>
    cases dryRun <;> simp only [World.effect]
    split <;> rfl
  | start | stageExistingDataDir => simp only [World.effect]; split <;> rfl
  | _ => rfl

theorem started_effect (ho : startsServer o = false) : (w.effect e o).started = w.started := by
  induction o with
  | within o ih => exact ih ho
  | act a => exact started_act a
  | pgRewind dryRun =>
    cases dryRun <;> simp only [World.effect]
    split <;> rfl
  | start => cases ho
  | stageExistingDataDir => simp only [World.effect]; split <;> rfl
  | _ => rfl

theorem safe_effect (hs : safe w) (hw : startsServer o → Covered w)
    (ha : w.allows e o) : safe (w.effect e o) := by
  induction o with
  | within o ih => exact ih hw ha
  | start =>
    rw [World.effect]
    split_ifs with ht
    · have hco : w.dir.any (·.postgresqlConf) := by
        rw [World.allows,ht] at ha
        split at ha <;> exact ha
      obtain ⟨f,hd,hf⟩ := (Option.any_eq_true _ _).1 hco
      have hc := hw rfl
      rw [Covered,World.exposed,hd,Option.any_some,Files.exposed,hf] at hc
      rintro g hg hm
      rcases mem_append.1 hg with hg | hg
      · simp_all
      · exact hs g hg hm
    · exact hs
  | _ =>
    intro f hf
    rw [started_effect rfl] at hf
    exact hs f hf

theorem inv_effect (hi : Inv lineage w) (hg : meets w o e) (ha : w.allows e o)
    (hw : startsServer o → Covered w) : Inv lineage (w.effect e o) :=
  ⟨safe_effect hi.1 hw ha,hg.2.1,lineage_effect.trans hi.2.2⟩

abbrev Good (lineage : LineageTerm) (w : World) : Prop := Inv lineage w ∧ Covered w

theorem keeps_covered {α : Type} {p : Asking α} (hp : p.Only (exposes · = false))
    (h : Good lineage w) : Holds lineage (fun _ w => Good lineage w) p w := by
  refine keeps_of_only ?_ hp h
  rintro w o e x w' ho ⟨hi,hw⟩ hg he
  obtain ⟨ha,-,rfl⟩ := answer_eq_some he
  have hi' := inv_effect hi hg ha fun _ => hw
  exact ⟨hi',hi',hg.2.2.1 ho hw⟩

theorem keeps_covered_bind {α β : Type} {p : Fallible α} {f : α → Fallible β}
    (hp : p.run.Only (exposes · = false)) (h : Good lineage w)
    (hf : ∀ a w, Good lineage w → Holds lineage (fun _ w => Good lineage w) (f a).run w) :
    Holds lineage (fun _ w => Good lineage w) (p >>= f).run w := by
  refine keeps_bind_except ((keeps_covered hp h).mono ?_)
  rintro (err | a) w h
  · exact h
  · exact hf a w h

end Kept

section Specs
variable {lineage : LineageTerm} {w : World}

theorem covered_of_fails {o : Op} {e : Event} (hg : meets w o e) (ho : exposes o = false)
    (hf : fails w.lineage o e.reply) : Covered (w.effect e o) := by
  refine hg.2.2.1 ho ?_
  by_contra he
  rw [hg.1 (Bool.not_eq_false _ ▸ he)] at hf
  cases hf

def Failed (w : World) {α : Type} : Except Error α → Prop
  | .ok _ => True
  | .error _ => Covered w

theorem keeps_act {a : Act} (ha : exposes (.act a) = false) (hi : Inv lineage w) :
    Holds lineage (fun r w => Inv lineage w ∧ Failed w r) (act a).run w := by
  refine keeps_bind_except (keeps_lift ?_)
  intro e (x : Except Text Unit) w' hg he
  obtain ⟨hal,hx,rfl⟩ := answer_eq_some he
  have hi' := inv_effect hi hg hal fun h => nomatch h
  cases x with
  | ok _ => exact ⟨hi',hi',trivial⟩
  | error detail => exact ⟨hi',hi',covered_of_fails hg ha (by rw [reply_of_answer_act hx]; rfl)⟩

def covers : Act → Bool
  | .ensureStandbySignal | .clearDirContents | .removeDataDir => true
  | _ => false

theorem covered_of_covers {a : Act} {e : Event} (ha : covers a) (he : e.reply = .done (.ok ())) :
    Covered (w.act e a) := by
  cases a with
  | ensureStandbySignal | clearDirContents | removeDataDir =>
    simp [Covered,World.exposed,World.act,Option.any_map,he,Reply.succeeded,Files.exposed]
  | _ => cases ha

theorem exposes_of_covers {a : Act} (ha : covers a) : exposes (.act a) = false := by
  cases a <;> first | rfl | cases ha

theorem keeps_act_covers {a : Act} (ha : covers a) (hi : Inv lineage w) :
    Holds lineage (fun _ w => Good lineage w) (act a).run w := by
  refine keeps_bind_except (keeps_lift ?_)
  intro e (x : Except Text Unit) w' hg he
  obtain ⟨hal,hx,rfl⟩ := answer_eq_some he
  have hi' := inv_effect hi hg hal fun h => nomatch h
  have hr := reply_of_answer_act hx
  cases x with
  | ok _ => exact ⟨hi',hi',covered_of_covers ha hr⟩
  | error detail => exact ⟨hi',hi',covered_of_fails hg (exposes_of_covers ha) (by rw [hr]; rfl)⟩

theorem keeps_timeout_act_covers {a : Act} (ha : covers a) (hi : Inv lineage w) :
    Holds lineage (fun _ w => Good lineage w) (timeout (act a).run) w := by
  refine keeps_timeout_bind (keeps_timeout_lift (@keeps_timeout_ask _ _ _ _ _ (.act a) _ _ ?_))
  intro e (x : Option (Except Text Unit)) w' hg he
  obtain ⟨hal,hx,rfl⟩ := answer_eq_some he
  have hi' := inv_effect hi hg hal fun h => nomatch h
  have hexp : exposes (.within (.act a)) = false := exposes_of_covers ha
  rcases reply_of_answer_within hx with ⟨hel,rfl⟩ | ⟨y,rfl,hy⟩
  · exact ⟨hi',hi',covered_of_fails hg hexp (by rw [hel]; rfl)⟩
  · have hr := reply_of_answer_act hy
    cases y with
    | ok _ => exact ⟨hi',hi',covered_of_covers ha hr⟩
    | error detail => exact ⟨hi',hi',covered_of_fails hg hexp (by rw [hr]; rfl)⟩

def RunLeft (w : World) : Except Error (Bool × Text) → Prop
  | .ok (true,_) => True
  | .ok (false,stderr) => Covered w ∨ pgRewindFailureIsPreCopy stderr = false
  | .error err => Covered w ∨ rewindRecovery err = .reprovision

def InTime {α : Type} (left : World → α → Prop) (w : World) : Option α → Prop
  | some r => left w r
  | none => True

theorem keeps_timeout_run (h : Good lineage w) :
    Holds lineage (fun r w => Inv lineage w ∧ InTime RunLeft w r) (timeout (runPgRewindAttempt false).run) w := by
  refine keeps_timeout_bind (keeps_timeout_lift (@keeps_timeout_ask _ _ _ _ _ (.pgRewind false) _ _ ?_))
  intro e (x : Option Attempt) w' hg he
  obtain ⟨ha,hx,rfl⟩ := answer_eq_some he
  have hi' := inv_effect h.1 hg ha fun h => nomatch h
  have hu : e.touched = false → Covered (w.effect e (.within (.pgRewind false))) := by
    intro hu
    rw [World.effect,World.effect,if_neg (by simp [hu])]
    exact h.2
  rcases reply_of_answer_within hx with ⟨-,rfl⟩ | ⟨y,rfl,hy⟩
  · exact ⟨hi',hi',trivial⟩
  · have hr := reply_of_answer_pgRewind hy
    cases y with
    | spawnFailed error =>
      exact ⟨hi',hi',.inl (hu (by simpa [World.allows,hr] using ha))⟩
    | unwaitable error | overran => exact ⟨hi',hi',.inr rfl⟩
    | exited success stderr =>
      refine ⟨hi',hi',?_⟩
      cases success with
      | true => trivial
      | false =>
        cases ht : e.touched with
        | false => exact .inl (hu ht)
        | true => exact .inr (by simpa [misreports,hr,ht] using hg.2.2.2)

def RewindLeft (w : World) : Except Error Unit → Prop
  | .ok _ => Covered w
  | .error err => Covered w ∨ rewindRecovery err = .reprovision

theorem recovery_of_not_preCopy {stderr sourceAddr : Text} (h : pgRewindFailureIsPreCopy stderr = false) :
    rewindRecovery (rewindFailureError stderr sourceAddr false) = .reprovision := by
  rw [rewindFailureError]
  split
  · rfl
  · rw [h]
    rfl

theorem keeps_timeout_rewindRuns (h : Good lineage w) (sourceAddr : Text) (left : ℕ) :
    Holds lineage (fun r w => Inv lineage w ∧ InTime RewindLeft w r)
      (timeout (rewindRuns sourceAddr left).run) w := by
  induction left generalizing w with
  | zero => exact ⟨h.1,.inl h.2⟩
  | succ left ih =>
    refine keeps_timeout_bind ((keeps_timeout_run h).mono ?_)
    rintro (_ | err | ⟨success,stderr⟩) w ⟨hi,hl⟩
    · exact ⟨hi,trivial⟩
    · exact ⟨hi,hl⟩
    · dsimp only
      split
      · refine (keeps_timeout_act_covers rfl hi).mono ?_
        rintro (_ | err | _) w h
        · exact ⟨h.1,trivial⟩
        · exact ⟨h.1,.inl h.2⟩
        · exact h
      · next hf =>
        obtain rfl := Bool.eq_false_iff.2 hf
        split
        · next hr =>
          have hc : Covered w := by
            refine hl.resolve_right fun hn => ?_
            rw [pgRewindFailureIsPreCopy,hr.2] at hn
            cases hn
          refine keeps_timeout_bind ?_
          have hd : (ExceptT.lift (ask .retryDelay) : Fallible Unit).run.Only (exposes · = false) :=
            only_lift (only_ask rfl)
          refine (keeps_covered (only_timeout (fun _ h => h) hd) ⟨hi,hc⟩).mono ?_
          rintro (_ | err | _) w h
          · exact ⟨h.1,trivial⟩
          · exact ⟨h.1,.inl h.2⟩
          · exact ih h
        · exact ⟨hi,hl.imp_right recovery_of_not_preCopy⟩

theorem keeps_timeout_covered_bind {α : Type} {p : Fallible α} {f : α → Fallible Unit}
    (hp : p.run.Only (exposes · = false)) (h : Good lineage w)
    (hf : ∀ a w, Good lineage w →
      Holds lineage (fun r w => Inv lineage w ∧ InTime RewindLeft w r) (timeout (f a).run) w) :
    Holds lineage (fun r w => Inv lineage w ∧ InTime RewindLeft w r) (timeout (p >>= f).run) w := by
  refine keeps_timeout_bind ((keeps_covered (only_timeout (fun _ h => h) hp) h).mono ?_)
  rintro (_ | err | a) w h
  · exact ⟨h.1,trivial⟩
  · exact ⟨h.1,.inl h.2⟩
  · exact hf a w h

theorem keeps_runPgRewind (h : Good lineage w) (sourceAddr : Text) (read : Option U64)
    (budget : RewindBudget) :
    Holds lineage (fun r w => Inv lineage w ∧ RewindLeft w r) (runPgRewind sourceAddr read budget).run w := by
  have ht : Holds lineage (fun r w => Inv lineage w ∧ InTime RewindLeft w r)
      (timeout (rewindWithinBudget sourceAddr read budget).run) w := by
    refine keeps_timeout_covered_bind (only_waitForRewindSource rfl) h fun _ w h => ?_
    refine keeps_timeout_covered_bind (only_runPgRewindAttempt rfl) h fun r w h => ?_
    obtain ⟨success,output⟩ := r
    dsimp only
    split
    · refine keeps_timeout_covered_bind (@only_checkRewindDiscard (exposes · = false) rfl _ _ _) h
        fun _ w h => ?_
      exact keeps_timeout_rewindRuns h sourceAddr _
    · exact ⟨h.1,.inl h.2⟩
  refine keeps_bind (ht.mono ?_)
  rintro (_ | r) w ⟨hi,hr⟩
  · exact ⟨hi,.inr rfl⟩
  · exact ⟨hi,hr⟩

/-- The result of every call that ends: a directory that is not exposed. -/
abbrev Ends (lineage : LineageTerm) {α : Type} (p : Asking α) (w : World) : Prop :=
  Holds lineage (fun _ w => Inv lineage w ∧ Covered w) p w

theorem keeps_peerLineage (hi : Inv lineage w) :
    Holds lineage (fun r w => Inv lineage w ∧ (servesClusterLineage lineage r = false → Covered w))
      peerLineage w := by
  refine keeps_bind (keeps_bind ?_)
  intro e (t : Option Text) w' hg he
  obtain ⟨ha,ht,rfl⟩ := answer_eq_some he
  have hi' := inv_effect hi hg ha fun h => nomatch h
  refine ⟨hi',hi',fun hf => covered_of_fails hg rfl ?_⟩
  rw [reply_of_answer_queryPeer ht,hi.2.2]
  exact congrArg not hf

theorem ends_reprovisionFrom (hi : Inv lineage w) (sourceAddr : Text) :
    Ends lineage (reprovisionFrom sourceAddr lineage).run w := by
  refine keeps_bind_except (keeps_lift ((keeps_peerLineage hi).mono ?_))
  rintro sourceLineage w ⟨hi,hf⟩
  dsimp only
  split
  · next hs => exact ⟨hi,hf (by simpa using hs)⟩
  · refine keeps_bind_except ((keeps_act rfl hi).mono ?_)
    rintro (err | _) w h
    · exact h
    · refine keeps_bind_except ((keeps_act_covers rfl h.1).mono ?_)
      rintro (err | _) w h
      · exact h
      · refine keeps_covered_bind (only_caught (only_act rfl)) h fun r w h => ?_
        cases r with
        | error err => exact keeps_covered_bind (only_caught (only_act rfl)) h fun _ _ h => h
        | ok _ =>
          refine keeps_covered_bind (only_act rfl) h fun _ w h => ?_
          refine keeps_covered_bind (only_act rfl) h fun _ w h => ?_
          exact keeps_covered (only_start rfl) h

theorem ends_bind {α β : Type} {p : Fallible α} {f : α → Fallible β} (hp : Ends lineage p.run w)
    (hf : ∀ a w, Good lineage w → Ends lineage (f a).run w) : Ends lineage (p >>= f).run w := by
  refine keeps_bind_except (hp.mono ?_)
  rintro (err | a) w h
  · exact h
  · exact hf a w h

theorem ends_rewindOntoLeader (h : Good lineage w) (newLeaderAddr : Text) (read : Option U64)
    (budget : RewindBudget) : Ends lineage (rewindOntoLeader newLeaderAddr read ⟨budget,lineage⟩).run w := by
  refine keeps_caught ((keeps_runPgRewind h newLeaderAddr read budget).mono ?_)
  rintro (err | _) w ⟨hi,hr⟩
  · dsimp only
    split
    · next hre =>
      have hw : Covered w := hr.resolve_right fun h => by rw [h] at hre; cases hre
      refine keeps_covered_bind (only_act rfl) ⟨hi,hw⟩ fun _ w h => ?_
      refine keeps_covered_bind (only_act rfl) h fun _ w h => ?_
      refine keeps_covered_bind (only_caught (only_start rfl)) h fun r w h => ?_
      split
      · exact ends_bind (ends_reprovisionFrom h.1 newLeaderAddr) fun _ w h => h
      · exact h
    · exact ends_bind (ends_reprovisionFrom hi newLeaderAddr) fun _ w h => h
  · exact keeps_covered_bind (only_act rfl) ⟨hi,hr⟩ fun _ w h => h

theorem ends_repointStandby (h : Good lineage w) (newLeaderAddr : Text) (budget : RewindBudget) :
    Ends lineage (repointStandby newLeaderAddr ⟨budget,lineage⟩).run w := by
  have hd := @only_decideStandbyAction (exposes · = false) (fun _ => rfl) (fun _ => rfl) rfl rfl lineage
  refine keeps_covered_bind (only_lift hd) h fun action w h => ?_
  cases action with
  | noOp | defer => exact h
  | reprovision => exact ends_reprovisionFrom h.1 newLeaderAddr
  | repoint =>
    refine keeps_covered_bind (only_act rfl) h fun _ w h => ?_
    exact keeps_covered (only_act rfl) h
  | rewind =>
    have hc := @only_captureLsnForRewindGate (exposes · = false) rfl
    refine keeps_covered_bind (only_lift hc) h fun read w h => ?_
    refine keeps_covered_bind (only_act rfl) h fun _ w h => ?_
    refine ends_bind (ends_rewindOntoLeader h newLeaderAddr read budget) fun outcome w h => ?_
    cases outcome with
    | reprovisioned => exact h
    | rewound =>
      refine keeps_covered_bind (only_act rfl) h fun _ w h => ?_
      exact keeps_covered (only_start rfl) h

theorem ends_restartOrRepairStandby (h : Good lineage w) (newLeaderAddr : Text) :
    Ends lineage (restartOrRepairStandby newLeaderAddr lineage).run w := by
  refine keeps_covered_bind (only_act rfl) h fun _ w h => ?_
  refine keeps_covered_bind (only_caught (only_start rfl)) h fun r w h => ?_
  split
  · exact h
  · exact ends_reprovisionFrom h.1 newLeaderAddr
  · exact h

theorem ends_demotePrimary (h : Good lineage w) (newLeaderAddr : Text) (budget : RewindBudget) :
    Ends lineage (demotePrimary newLeaderAddr ⟨budget,lineage⟩).run w := by
  have ht := @only_checkTimelineState (exposes · = false) rfl (fun _ => rfl) lineage
  refine keeps_covered_bind (only_lift ht) h fun timeline w h => ?_
  split
  · exact h
  · have hc := @only_captureLsnForRewindGate (exposes · = false) rfl
    refine keeps_covered_bind (only_lift hc) h fun read w h => ?_
    refine keeps_covered_bind (only_act rfl) h fun _ w h => ?_
    refine keeps_caught ((keeps_runPgRewind h newLeaderAddr read budget).mono ?_)
    rintro (err | _) w ⟨hi,hr⟩
    · dsimp only
      split
      · next hre =>
        exact ⟨hi,hr.resolve_right fun h => by rw [h] at hre; cases hre⟩
      · exact ends_reprovisionFrom hi newLeaderAddr
    · refine keeps_covered_bind (only_act rfl) ⟨hi,hr⟩ fun _ w h => ?_
      refine keeps_covered_bind (only_act rfl) h fun _ w h => ?_
      refine keeps_covered_bind (only_start rfl) h fun _ w h => ?_
      refine keeps_covered_bind (@only_isInRecovery (exposes · = false) rfl _) h fun inRecovery w h => ?_
      cases inRecovery <;> exact h

theorem ends_demote (h : Good lineage w) (newLeaderAddr : Text) (budget : RewindBudget) :
    Ends lineage (Following.demote newLeaderAddr ⟨budget,lineage⟩).run w := by
  refine keeps_covered_bind (only_lift (only_ask rfl)) h
    fun (state : Except Text PostmasterState) w h => ?_
  split
  · exact h
  · exact ends_restartOrRepairStandby h newLeaderAddr
  · refine keeps_covered_bind (@only_isInRecovery (exposes · = false) rfl _) h fun inRecovery w h => ?_
    cases inRecovery with
    | true => exact ends_repointStandby h newLeaderAddr budget
    | false => exact ends_demotePrimary h newLeaderAddr budget

theorem keeps_extractBackup (hi : Inv lineage w) :
    Holds lineage (fun _ w => Inv lineage w) (act .extractBackup).run w := by
  refine keeps_of_only ?_ (@only_act (startsServer · = false) _ rfl) hi
  rintro w o e x w' ho hi hg he
  obtain ⟨ha,-,rfl⟩ := answer_eq_some he
  have hi' := inv_effect hi hg ha fun h => (Bool.false_ne_true (ho.symm.trans h)).elim
  exact ⟨hi',hi'⟩

theorem keeps_look (q : Look) (hi : Inv lineage w) :
    Holds lineage (fun b w' => Inv lineage w' ∧ w' = w ∧ ∀ c, w.sees q = some c → b = c) (look q) w := by
  intro e (b : Bool) w' hg he
  obtain ⟨ha,hb,rfl⟩ := answer_eq_some he
  have hi' := inv_effect hi hg ha fun h => nomatch h
  refine ⟨hi',hi',rfl,fun c hc => ?_⟩
  simpa [World.allows,reply_of_answer_look hb,hc] using ha

theorem only_look {kind : Op → Prop} {q : Look} (h : kind (.look q)) : (look q).Only kind := only_ask h

theorem only_whenever {kind : Op → Prop} {p : Fallible Unit} (h : p.run.Only kind) (b : Bool) :
    (whenever b p).run.Only kind := by
  cases b with
  | true => exact h
  | false => exact trivial

theorem covered_of_absent (h : w.dir.isSome = false) : Covered w := by
  simp_all [Covered,World.exposed]

theorem ends_rollbackFailedRestore (hi : Inv lineage w) (staged : Bool) :
    Ends lineage (rollbackFailedRestore staged).run w := by
  have hr : (whenever staged (act .renameStagedBack)).run.Only (exposes · = false) :=
    only_whenever (@only_act (exposes · = false) _ rfl) staged
  refine keeps_bind_except (keeps_lift ((keeps_look .pgdataExists hi).mono ?_))
  rintro exist w' ⟨hi,rfl,hs⟩
  cases exist with
  | true => exact ends_bind (keeps_caught (keeps_act_covers rfl hi)) fun _ w h => keeps_covered hr h
  | false => exact keeps_covered hr ⟨hi,covered_of_absent (hs _ rfl).symm⟩

theorem keeps_restoreFullBackup (h : Good lineage w) :
    Holds lineage (fun r w => Inv lineage w ∧ Failed w r) restoreFullBackup.run w := by
  refine keeps_bind_except ((keeps_covered (only_act rfl) h).mono ?_)
  rintro (err | _) w h
  · exact h
  refine keeps_bind_except (keeps_lift ?_)
  refine (keeps_covered (only_ask rfl) h).mono ?_
  rintro (r : Except Text Bool) w h
  cases r with
  | error detail => exact h
  | ok staged =>
    refine keeps_bind_except ((keeps_covered (only_act rfl) h).mono ?_)
    rintro (err | _) w h
    · exact h
    refine keeps_caught ((keeps_extractBackup h.1).mono ?_)
    rintro (err | _) w hi
    · refine keeps_bind_except ((ends_rollbackFailedRestore hi staged).mono ?_)
      rintro (err | _) w h <;> exact h
    · cases staged with
      | false => exact ⟨hi,trivial⟩
      | true => exact keeps_caught ((keeps_act rfl hi).mono fun r w h => ⟨h.1,trivial⟩)

theorem ends_executeFullRestore (h : Good lineage w) : Ends lineage executeFullRestore.run w := by
  refine keeps_covered_bind (only_lift (only_look rfl)) h fun leads w h => ?_
  cases leads with
  | true => exact h
  | false =>
    refine keeps_covered_bind (only_act rfl) h fun _ w h => ?_
    refine keeps_caught ((keeps_restoreFullBackup h).mono ?_)
    rintro (err | _) w h
    · exact keeps_covered_bind (only_start rfl) h fun _ w h => h
    · refine ends_bind (keeps_act_covers rfl h.1) fun _ w h => ?_
      exact keeps_covered (only_start rfl) h

theorem sheltered_of_covered (hw : Covered w) : w.sheltered := by
  rw [World.sheltered,show w.exposed = false from hw]
  rfl

theorem keeps_findPreRestoreStaging (hi : Inv lineage w) :
    Holds lineage (fun (r : Except Text Bool) w' => Inv lineage w' ∧ w' = w ∧
      ∀ b, r = .ok b → b = !w.staged.isEmpty) (ask .findPreRestoreStaging) w := by
  intro e (r : Except Text Bool) w' hg he
  obtain ⟨ha,hr,rfl⟩ := answer_eq_some he
  have hi' := inv_effect hi hg ha fun h => nomatch h
  refine ⟨hi',hi',rfl,?_⟩
  rintro b rfl
  simpa [World.allows,reply_of_answer_findPreRestoreStaging hr] using ha

theorem keeps_recoverInterruptedRestore (hi : Inv lineage w) (hw : w.sheltered) :
    Holds lineage (fun r w => Inv lineage w ∧ w.sheltered ∧ (r = .ok () → Covered w))
      recoverInterruptedRestore.run w := by
  refine keeps_bind_except (keeps_lift ((keeps_findPreRestoreStaging hi).mono ?_))
  rintro (r : Except Text Bool) w' ⟨hi,rfl,hs⟩
  match r with
  | .error detail => exact ⟨hi,hw,fun h => nomatch h⟩
  | .ok false =>
    have he : w'.staged.isEmpty := by simpa using hs false rfl
    exact ⟨hi,hw,fun _ => by simpa [Covered,World.sheltered,he] using hw⟩
  | .ok true =>
    refine keeps_bind_except (keeps_lift ((keeps_look .pgdataLooksValid hi).mono ?_))
    rintro valid w' ⟨hi,rfl,hv⟩
    cases valid with
    | true =>
      have hl : w'.dir.any Files.looksValid := (hv _ rfl).symm
      exact ⟨hi,hw,fun _ => by simpa [Covered,World.sheltered,hl] using hw⟩
    | false =>
      refine keeps_bind_except (keeps_lift ((keeps_look .pgdataExists hi).mono ?_))
      rintro exist w' ⟨hi,rfl,hexi⟩
      have hr : Ends lineage (whenever exist (act .removeDataDir)).run w' := by
        cases exist with
        | true => exact keeps_act_covers rfl hi
        | false => exact ⟨hi,covered_of_absent (hexi _ rfl).symm⟩
      refine (ends_bind hr fun _ w h => keeps_covered (only_act rfl) h).mono ?_
      exact fun r w h => ⟨h.1,sheltered_of_covered h.2,fun _ => h.2⟩

theorem keeps_startSupervisorForMode (hi : Inv lineage w) (hw : w.sheltered) (bootstrap : Bool) :
    Holds lineage (fun r w => Inv lineage w ∧ w.sheltered ∧ ∀ x, r = .ok x → Covered w)
      (startSupervisorForMode bootstrap).run w := by
  refine keeps_bind_except ((keeps_recoverInterruptedRestore hi hw).mono ?_)
  rintro (err | _) w ⟨hi,hw,hr⟩
  · exact ⟨hi,hw,fun _ h => nomatch h⟩
  · have he : ∀ {p : Fallible Unit}, Ends lineage p.run w →
        Holds lineage (fun r w => Inv lineage w ∧ w.sheltered ∧ ∀ x, r = .ok x → Covered w) p.run w :=
      fun h => h.mono fun r w hr => ⟨hr.1,sheltered_of_covered hr.2,fun _ _ => hr.2⟩
    refine he ?_
    refine keeps_covered_bind (only_lift (only_look rfl)) ⟨hi,hr rfl⟩ fun hasExistingData w h => ?_
    refine keeps_covered_bind (only_lift (only_look rfl)) h fun isStandby w h => ?_
    have hs : Ends lineage start.run w := keeps_covered (only_start rfl) h
    split
    · exact keeps_covered_bind (only_caught (only_start rfl)) h fun _ w h => h
    · split
      · split
        · exact hs
        · refine keeps_covered_bind (only_lift (only_look rfl)) h fun lists w h => ?_
          cases lists with
          | true => exact h
          | false =>
            refine keeps_covered_bind (only_act rfl) h fun _ w h => ?_
            exact keeps_covered (only_start rfl) h
      · split
        · exact hs
        · exact h

end Specs

section Runs
variable {lineage : LineageTerm} {w : World}

def Ended (lineage : LineageTerm) (booting : Bool) (r : Except Error Unit) (w : World) : Prop :=
  Inv lineage w ∧ w.sheltered = true ∧ (booting = false ∨ r = .ok () → Covered w)

def NodeInv (n : Node) : Prop :=
  ∃ lineage, Inv lineage n.world ∧
    match n.proc with
    | .down => n.world.sheltered = true
    | .idle => Covered n.world
    | .busy booting p => Holds lineage (Ended lineage booting) p n.world

theorem nodeInv_resume {booting : Bool} {p : Asking (Except Error Unit)} (hi : Inv lineage w)
    (hp : Holds lineage (Ended lineage booting) p w) : NodeInv ⟨w,.resume booting p⟩ := by
  refine ⟨lineage,hi,?_⟩
  match p with
  | .pure (.ok ()) => exact hp.2.2 (.inr rfl)
  | .pure (.error err) =>
    cases booting with
    | true => exact hp.2.1
    | false => exact hp.2.2 (.inl rfl)
  | .ask o k => exact hp

theorem exists_answer_start {o : Op} {e : Event} (ho : startsServer o)
    (ha : w.allows e o) (hi : Inv lineage w) :
    ∃ e' x, meets w o e' ∧ answer w o e' = some (x,w.effect e o) := by
  have hk : (∃ x, (Reply.started (.failed [])).answer o = some x) ∧
      w.allows {e with reply := .started (.failed [])} o ∧
      w.effect {e with reply := .started (.failed [])} o = w.effect e o ∧
      fails w.lineage o (.started (.failed [])) = false ∧
      misreports {e with reply := .started (.failed [])} o = false ∧
      (w.effect e o).staged = w.staged ∧ (w.effect e o).dir = w.dir := by
    induction o with
    | within o ih =>
      obtain ⟨⟨x,hx⟩,hr⟩ := ih ho ha
      refine ⟨⟨some x,?_⟩,hr⟩
      rw [Reply.answer,hx]
      · rfl
      · exact fun h => nomatch h
    | start =>
      have ha' : w.allows {e with reply := .started (.failed [])} .start := by
        rw [World.allows] at ha
        split at ha
        · simp [World.allows,(Bool.and_eq_true_iff.1 ha).2]
        · exact ha
      refine ⟨⟨.failed [],rfl⟩,ha',rfl,rfl,rfl,?_⟩
      rw [World.effect]
      split <;> exact ⟨rfl,rfl⟩
    | _ => cases ho
  obtain ⟨⟨x,hx⟩,ha',he,hf,hm,hs,hd⟩ := hk
  refine ⟨{e with reply := .started (.failed [])},x,⟨fun _ => hf,?_,fun _ hexp => ?_,hm⟩,?_⟩
  · rw [he,World.stagedCovered,hs]
    exact hi.2.1
  · rw [he,World.exposed,hd]
    exact hexp
  · rw [answer,if_pos ha',he,hx]
    rfl

/-- What is cut off by a crash has started nothing it may not start. -/
theorem safe_of_crash {o : Op} {k : Ans o → Asking (Except Error Unit)} {e : Event} {booting : Bool}
    (hi : Inv lineage w) (hp : Holds lineage (Ended lineage booting) (.ask o k) w)
    (ha : w.allows e o) : safe (w.effect e o) := by
  by_cases ho : startsServer o
  · obtain ⟨e',x,hg,he⟩ := exists_answer_start ho ha hi
    exact (hp e' x _ hg he).1.1
  · exact safe_effect hi.1 (fun h => absurd h ho) ha

theorem nodeInv_step (n : Node) (i : Input) (n' : Node) (hn : NodeInv n) (hi : meetsInput n i)
    (hs : step n i = some n') : NodeInv n' := by
  obtain ⟨w,proc⟩ := n
  obtain ⟨lineage,hin,hp⟩ := hn
  have he : ∀ {lineage p}, Inv lineage w → Ends lineage p w → NodeInv ⟨w,.resume false p⟩ :=
    fun hin h => nodeInv_resume hin (h.mono fun _ _ h => ⟨h.1,sheltered_of_covered h.2,fun _ => h.2⟩)
  cases proc with
  | down =>
    cases i with
    | boot bootstrap =>
      cases hs
      refine nodeInv_resume hin ((keeps_startSupervisorForMode hin hp bootstrap).mono ?_)
      rintro r w ⟨hin,hw,hr⟩
      exact ⟨hin,hw,fun h => hr () (h.resolve_left Bool.noConfusion)⟩
    | _ => cases hs
  | idle =>
    cases i with
    | crash e =>
      cases hs
      exact ⟨lineage,hin,sheltered_of_covered hp⟩
    | demote newLeaderAddr terms =>
      cases hs
      have hi' : Inv terms.lineage {w with lineage := terms.lineage} := ⟨hin.1,hin.2.1,rfl⟩
      refine nodeInv_resume hi' ((ends_demote ⟨hi',hp⟩ newLeaderAddr terms.rewindBudget).mono ?_)
      exact fun r w h => ⟨h.1,sheltered_of_covered h.2,fun _ => h.2⟩
    | restore =>
      cases hs
      exact he hin (ends_executeFullRestore ⟨hin,hp⟩)
    | promoted =>
      cases hs
      refine ⟨lineage,hin,?_⟩
      change Covered _
      simp [Covered,World.exposed,Option.any_map,Files.exposed]
    | _ => cases hs
  | busy booting p =>
    cases i with
    | reply e =>
      obtain ⟨c,hc,rfl⟩ := Option.map_eq_some_iff.1 hs
      obtain ⟨hi',hre⟩ := keeps_step (c := (w,p)) hp hi hc
      exact nodeInv_resume hi' hre
    | crash e =>
      cases p with
      | pure r => cases hs
      | ask o k =>
        obtain ⟨ha,⟨⟩⟩ := Option.ite_none_right_eq_some.1 hs
        have hl : (w.effect e o).lineage = lineage := lineage_effect.trans hin.2.2
        exact ⟨lineage,⟨safe_of_crash hin hp ha,hi.1,hl⟩,hi.2⟩
    | _ => cases hs

/-- A node, up or down, whose directories neither `pg_rewind` nor a restore has touched. -/
def Node.initial (up : Bool) (dir : Option Files) (staged : List Files) : Node where
  world := {
    dir := dir.map ({· with modified := false})
    staged := staged.map ({· with modified := false}) }
  proc := if up then .idle else .down

theorem nodeInv_initial (up : Bool) (dir : Option Files) (staged : List Files) :
    NodeInv (Node.initial up dir staged) := by
  have hc : Covered (Node.initial up dir staged).world := by
    simp [Covered,World.exposed,Node.initial,Option.any_map,Files.exposed]
  refine ⟨.unenforced,⟨fun f hf => (nomatch hf),?_,rfl⟩,?_⟩
  · simp [World.stagedCovered,Node.initial,Files.exposed]
  · cases up with
    | true => exact hc
    | false => exact sheltered_of_covered hc

/-- Through every sequence of boots, demotes, restores and crashes within `meetsInput`, PostgreSQL is
started on a directory that `pg_rewind` modified or a restore put there only with the signal in it. -/
theorem started_only_with_signal (up : Bool) (dir : Option Files) (staged : List Files)
    (is : List Input) (n : Node) (hg : Guarded step meetsInput (Node.initial up dir staged) is)
    (hrun : run step (Node.initial up dir staged) is = some n) : safe n.world := by
  obtain ⟨lineage,hi,-⟩ :=
    run_invariant_guarded nodeInv_step (nodeInv_initial up dir staged) hg hrun
  exact hi.1

def asyncTerms : FollowTerms := ⟨.bytes 16777216,.committed (some 7)⟩
def leaderAddr : Text := "10.0.0.2:5432".toList

def told (reply : Reply) : Input := .reply {reply}
def text (s : String) : Input := told (.text (some s.toList))
def done : Input := told (.done (.ok ()))
def spawned : Input := .reply {reply := .started .ready, touched := true}

def rewinding : List Input :=
  [.demote leaderAddr asyncTerms,told (.state (.ok .running)),told (.recovery (.ok false)),
    told (.timeline (some 1)),text "000000020000000000000004|7",text "0/3000060",done,done,
    told (.ran (.exited true "servers diverged at WAL location 0/3000060".toList))]

def rewound : List Input := rewinding++
  [.reply {reply := .ran (.exited true []), touched := true, leaves := .fresh},done,done,done,spawned,
    told (.recovery (.ok true)),.crash {reply := .elapsed},
    .boot true,told (.found (.ok false)),told (.flag true),told (.flag true),spawned]

theorem started_only_with_signal_rewound :
    (run step (.initial true (some .fresh) []) rewound).any
      (fun n => n.world.started.length = 2 && n.world.started.all (·.modified)) = true ∧
    ∀ n, run step (.initial true (some .fresh) []) rewound = some n → safe n.world :=
  ⟨by decide +kernel,fun n hr =>
    started_only_with_signal true (some .fresh) [] rewound n (by decide +kernel) hr⟩

def halfway : Event where
  reply := .ran (.exited false "could not write file".toList)
  touched := true
  leaves := .fresh

/-- A full restore up to the restored tree being in place and the old one removed. -/
def restored : List Input :=
  [.restore,told (.flag false),done,done,told (.found (.ok true)),done,
    .reply {reply := .done (.ok ()), leaves := .fresh},done]

def bootsAsPrimary : List Input :=
  [.boot false,told (.found (.ok false)),told (.flag true),told (.flag false),spawned]

def restarted : List Input := [.demote leaderAddr asyncTerms,told (.state (.ok .notRunning)),done,spawned]

/-- A crash during the copy, and a copy that dies while the source cannot prove its lineage; a crash
between a restored tree and its signal, and a signal that cannot be written. -/
def uncovered : List (List Input) :=
  [rewinding++[.crash halfway]++bootsAsPrimary,
    rewinding++[.reply halfway,told (.text none)]++restarted,
    restored++[.crash {reply := .elapsed}]++bootsAsPrimary,
    restored++[told (.done (.error "Failed to create standby.signal".toList))]++restarted]

theorem started_without_signal : uncovered.Forall fun is => ∃ n,
    run step (.initial true (some .fresh) []) is = some n ∧ ¬safe n.world := by
  have ha : uncovered.all (fun is => (run step (.initial true (some .fresh) []) is).any fun n =>
      n.world.started.any fun f => f.modified && !f.standbySignal) := by decide +kernel
  rw [forall_iff_forall_mem]
  intro is his
  obtain ⟨n,hr,hn⟩ := (Option.any_eq_true _ _).1 (all_eq_true.1 ha is his)
  obtain ⟨f,hme,hf⟩ := any_eq_true.1 hn
  refine ⟨n,hr,fun hsa => ?_⟩
  obtain ⟨hm,hs⟩ := Bool.and_eq_true_iff.1 hf
  rw [hsa f hme hm] at hs
  cases hs

end Runs
end StandbySignal
end PgBattery
