import PgBattery.Following

/-! The write-loss watermark of an in-place major upgrade. The apply records the new cluster's flush
position as its last step; a rollback without consent compares it with the position it reads before it
stops the new server, and starts the old directory. -/
namespace PgBattery
namespace Rollback
open SqlReply Interaction TransitionSystem List Program

structure UpgradeSite where
  oldDataDir : Option Text
  oldMajor : Option U32
  newDataDir : Option Text
  oldControlIntact : Bool
  deriving DecidableEq

inductive Stage
  | initDb | pgUpgrade | startNew | writeProbe | readPostmasterPort | postUpgradeScripts | vacuumdb
  | stop | startOld | probeRollbackWrite | moveAsideDiscardedTarget
  deriving DecidableEq

inductive Op
  | stage (s : Stage)
  | vacuumdbIsFile
  | probeSite (toMajor : U32)
  | flushLsn
  | writeWatermark (content : Text)
  | readWatermark
  | removeWatermark
  | binDir (major : U32)
  | countCatalog
  | dataDirMajor
  deriving DecidableEq

def Ans : Op → Type
  | .stage _ | .vacuumdbIsFile | .writeWatermark _ | .removeWatermark | .binDir _ => Bool
  | .probeSite _ => Option UpgradeSite
  | .flushLsn | .readWatermark | .countCatalog => Option Text
  | .dataDirMajor => Option U32

inductive Failure
  | stage (s : Stage)
  | vacuumdbMissing
  | site
  | nothingToRollBackTo
  | linkMode
  | flushLsn
  | watermark
  | writeLoss (finalLsn watermark : Option U64)
  | noBinDir (major : U32)
  | catalogsUnreadable
  | emptyCatalog
  | version (live : Option U32) (expected : U32)
  deriving DecidableEq

abbrev Asking := Program Op Ans
abbrev Fallible := ExceptT Failure Asking

section Programs

def ask (o : Op) : Asking (Ans o) := Program.perform o

def stage (s : Stage) : Fallible Unit := do
  match (← ask (.stage s) : Bool) with
  | true => pure ()
  | false => throw (.stage s)

def probeSite (toMajor : U32) : Fallible UpgradeSite := do
  match (← ask (.probeSite toMajor) : Option UpgradeSite) with
  | some site => pure site
  | none => throw .site

def flushLsnBytes : Asking (Option U64) := do
  let raw : Option Text ← ask .flushLsn
  return raw.bind fun raw => parseLsnBytes (trim raw)

def watermarkText (lsn : U64) : Text := Nat.toDigits 10 lsn.val

def writeUnfreezeWatermark (lsn : U64) : Fallible Unit := do
  match (← ask (.writeWatermark (watermarkText lsn)) : Bool) with
  | true => pure ()
  | false => throw .watermark

def parseWatermark (content : Text) : Option U64 := Following.parseU64 (trim content)

def readUnfreezeWatermark : Asking (Option U64) := do
  let content : Option Text ← ask .readWatermark
  return content.bind parseWatermark

/-- `vacuumdb --analyze-in-stages`, which gates a target below 18. -/
def analyzeInStages (toMajor : U32) : Fallible Unit := do
  match (← ask .vacuumdbIsFile : Bool) with
  | true => do
    stage .readPostmasterPort
    let analyzed : Bool ← ask (.stage .vacuumdb)
    if !analyzed && toMajor < 18 then throw (.stage .vacuumdb) else pure ()
  | false => if toMajor < 18 then throw .vacuumdbMissing else pure ()

/-- `run_apply_after_stop`, up to the watermark. -/
def upgradeStages (toMajor : U32) : Fallible Unit := do
  stage .initDb
  stage .pgUpgrade
  stage .startNew
  -- held clients must be released into a primary that answers
  stage .writeProbe
  stage .readPostmasterPort
  stage .postUpgradeScripts
  analyzeInStages toMajor
  let _site ← probeSite toMajor

/-- The apply's last step. -/
def recordWatermark : Fallible Unit := do
  match ← flushLsnBytes with
  | some watermark => writeUnfreezeWatermark watermark
  | none => throw .flushLsn

def runApplyAfterStop (toMajor : U32) : Fallible Unit := do
  upgradeStages toMajor
  recordWatermark

/-- The new cluster's flush position is past the watermark, or either is unknown. -/
def rollbackMayDiscardWrites : Option U64 → Option U64 → Bool
  | some mark, some now => mark < now
  | _, _ => true

structure RollbackReport where
  fromMajor : U32
  toMajor : U32
  oldDataDir : Text
  unfreezeWatermarkLsn : Option U64
  newClusterFinalLsn : Option U64
  deriving DecidableEq

def checkCatalogs (fromMajor : U32) : Fallible Unit := do
  match (← ask .countCatalog : Option Text) with
  | none => throw .catalogsUnreadable
  | some reply =>
    if (Following.parseU64 (trim reply)).getD 0 = 0 then throw .emptyCatalog
    else do
      let live : Option U32 ← ask .dataDirMajor
      if live = some fromMajor then pure () else throw (.version live fromMajor)

def moveAside (newDataDir : Option Text) : Fallible Unit :=
  match newDataDir with
  | some _ => stage .moveAsideDiscardedTarget
  | none => pure ()

def startOldMajor (fromMajor : U32) (newDataDir : Option Text) : Fallible Unit := do
  stage .startOld
  stage .probeRollbackWrite
  checkCatalogs fromMajor
  moveAside newDataDir
  -- a failed removal is dropped
  let _removed : Bool ← ask .removeWatermark

def rollbackOnto (fromMajor : U32) (newDataDir : Option Text) : Fallible Unit := do
  match (← ask (.binDir fromMajor) : Bool) with
  | true => do
    stage .stop
    startOldMajor fromMajor newDataDir
  | false => throw (.noBinDir fromMajor)

def rollbackFrom (site : UpgradeSite) (oldDataDir : Text) (fromMajor toMajor : U32)
    (acceptWriteLoss : Bool) : Fallible RollbackReport := do
  let newClusterFinalLsn ← flushLsnBytes
  let watermark ← readUnfreezeWatermark
  if rollbackMayDiscardWrites watermark newClusterFinalLsn && !acceptWriteLoss then
    throw (.writeLoss newClusterFinalLsn watermark)
  else do
    rollbackOnto fromMajor site.newDataDir
    return ⟨fromMajor,toMajor,oldDataDir,watermark,newClusterFinalLsn⟩

def rollbackLocal (toMajor : U32) (acceptWriteLoss : Bool) : Fallible RollbackReport := do
  let site ← probeSite toMajor
  match site.oldDataDir, site.oldMajor with
  | some oldDataDir, some fromMajor =>
    if site.oldControlIntact then rollbackFrom site oldDataDir fromMajor toMajor acceptWriteLoss
    else throw .linkMode
  | _, _ => throw .nothingToRollBackTo

end Programs

section Watermark

theorem le_ofDigitChars (s : Text) (n : ℕ) : n ≤ Nat.ofDigitChars 10 s n := by
  induction s generalizing n with
  | nil => exact le_rfl
  | cons c s ih =>
    rw [Nat.ofDigitChars_cons]
    have hn := ih (10*n+(c.toNat- '0'.toNat))
    omega

theorem parseWatermark_take {lsn mark : U64} {k : ℕ}
    (h : parseWatermark ((watermarkText lsn).take k) = some mark) : mark ≤ lsn := by
  have hd : ∀ c ∈ (watermarkText lsn).take k, c.isDigit := fun c hc =>
    Nat.isDigit_of_mem_toDigits (b := 10) (by decide) (by decide) (mem_of_mem_take hc)
  have ht : trim ((watermarkText lsn).take k) = (watermarkText lsn).take k := by
    exact trim_eq_self fun c hc => whitespace_of_isDigit (hd c hc)
  rw [parseWatermark,ht] at h
  have hm := Following.parseU64_digits hd h
  have hw : Nat.ofDigitChars 10 (watermarkText lsn) 0 = lsn.val := Nat.ofDigitChars_ten_toDigits
  rw [← take_append_drop k (watermarkText lsn),Nat.ofDigitChars_append,← hm] at hw
  have hle := le_ofDigitChars ((watermarkText lsn).drop k) mark.val
  rw [hw] at hle
  exact hle

end Watermark

section Semantics

/-- The new cluster. `commits` has the clients' commit records in its WAL, `acked` those a client was
told of and `elsewhere` those that another node of the new major told a client of; the old directory,
which nothing has written to since it was stopped, has none of them. `judged` says that a rollback has
read the flush position. -/
structure World where
  up : Bool := false
  insert : U64
  flush : U64
  commits : List U64 := []
  acked : List U64 := []
  elsewhere : List U64 := []
  watermark : Option Text := none
  applied : Bool := false
  judged : Bool := false
  deriving DecidableEq

inductive Move
  | background (lsn : U64)
  | commit (lsn : U64)
  | flush (lsn : U64)
  | acknowledge (lsn : U64) (synchronous : Bool)
  | acknowledgeElsewhere (lsn : U64)
  | crash
  deriving DecidableEq

def World.move (w : World) : Move → Option World
  | .background lsn => if w.up ∧ w.insert ≤ lsn then some {w with insert := lsn} else none
  | .commit lsn =>
    if w.up ∧ w.insert < lsn then some {w with insert := lsn, commits := lsn::w.commits} else none
  | .flush lsn =>
    if w.up ∧ w.flush ≤ lsn ∧ lsn ≤ w.insert then some {w with flush := lsn} else none
  | .acknowledge lsn synchronous =>
    -- only a synchronous commit waits for its record to be flushed
    if w.up ∧ lsn ∈ w.commits ∧ (synchronous → lsn ≤ w.flush) then
      some {w with acked := lsn::w.acked}
    else none
  | .acknowledgeElsewhere lsn => some {w with elsewhere := lsn::w.elsewhere}
  -- the server recovers from what was flushed
  | .crash => some {w with insert := w.flush, commits := w.commits.filter (· ≤ w.flush)}

inductive Reply
  | flag (b : Bool)
  | site (s : Option UpgradeSite)
  | text (t : Option Text)
  | major (m : Option U32)

def Reply.answer : (o : Op) → Reply → Option (Ans o)
  | .stage _, .flag b | .vacuumdbIsFile, .flag b | .writeWatermark _, .flag b => some b
  | .removeWatermark, .flag b | .binDir _, .flag b => some b
  | .probeSite _, .site s => some s
  | .flushLsn, .text t | .readWatermark, .text t | .countCatalog, .text t => some t
  | .dataDirMajor, .major m => some m
  | _, _ => none

structure Event where
  moves : List Move := []
  reply : Reply

def World.effect (w : World) : Op → Reply → World
  | .stage .startNew, .flag true => {w with up := true}
  | .stage .stop, .flag true => {w with up := false}
  | .flushLsn, _ => {w with judged := w.applied}
  | .writeWatermark content, .flag true => {w with watermark := some content, applied := true}
  | .removeWatermark, .flag true => {w with watermark := none}
  | _, _ => w

/-- A position or a file that is read is what is there; either reading may fail. -/
def World.reports (w : World) : Op → Reply → Bool
  | .flushLsn, .text (some t) => w.up && trim t = lsnText w.flush
  | .readWatermark, .text (some t) => w.watermark = some t
  | _, _ => true

def answer (w : World) (o : Op) (e : Event) : Option (Ans o × World) :=
  (run World.move w e.moves).bind fun w' =>
    if w'.reports o e.reply then (e.reply.answer o).map fun x => (x,w'.effect o e.reply) else none

/-- No client is told of a commit once a rollback has read the flush position. -/
def mayMove (w : World) : Move → Bool
  | .acknowledge _ _ | .acknowledgeElsewhere _ => !w.judged
  | _ => true

/-- When the watermark is read no client's commit record is flushed, and when a rollback reads the
position every commit that a client was told of is. -/
def readable (w : World) : Bool :=
  if w.applied then w.acked.all (· ≤ w.flush) && w.elsewhere = []
  else w.commits.all (w.flush < ·) && w.acked.all (w.flush < ·)

def admissible (w : World) (o : Op) (e : Event) : Prop :=
  Guarded World.move (fun w m => mayMove w m = true) w e.moves ∧
    (o = .flushLsn → ∀ w' ∈ run World.move w e.moves, readable w' = true)

instance instDecidableAdmissible (w : World) (o : Op) (e : Event) : Decidable (admissible w o e) := by
  unfold admissible
  infer_instance

inductive Proc
  | idle
  | applying (p : Asking (Except Failure Unit))
  | rollingBack (p : Asking (Except Failure RollbackReport))

structure Node where
  world : World
  proc : Proc
  rolledBack : Bool := false

inductive Input
  | reply (e : Event)
  | finish
  | move (m : Move)
  | restart
  | truncate (length : Option ℕ)
  | rollback (toMajor : U32)

/-- The handler's next answer, its end, and what may happen between two handlers. -/
def step (n : Node) : Input → Option Node
  | .reply e =>
    match n.proc with
    | .idle => none
    | .applying p =>
      (Program.step answer (n.world,p) e).map fun c => {n with world := c.1, proc := .applying c.2}
    | .rollingBack p =>
      (Program.step answer (n.world,p) e).map fun c => {n with world := c.1, proc := .rollingBack c.2}
  | .finish =>
    match n.proc with
    | .applying (.pure (.ok _)) => some {n with proc := .idle}
    | .rollingBack (.pure (.ok _)) => some {n with proc := .idle, rolledBack := true}
    | .rollingBack (.pure (.error _)) =>
      some {n with proc := .idle, world := {n.world with judged := false}}
    | _ => none
  | .move m =>
    match n.proc with
    | .idle => (n.world.move m).map fun w => {n with world := w}
    | _ => none
  -- the process starts the directory its configuration names
  | .restart =>
    match n.proc with
    | .idle => if n.rolledBack then none else some {n with world := {n.world with up := true}}
    | _ => none
  -- the file is not synced, so a power loss may leave only its beginning, or nothing
  | .truncate length =>
    match n.proc with
    | .idle => some {n with world := {n.world with
        watermark := length.bind fun k => n.world.watermark.map (·.take k)}}
    | _ => none
  | .rollback toMajor =>
    match n.proc with
    | .idle =>
      if n.rolledBack then none
      else some {n with proc := .rollingBack (rollbackLocal toMajor false).run}
    | _ => none

def meets (n : Node) : Input → Prop
  | .reply e =>
    match n.proc with
    | .idle => True
    | .applying p => Program.asked admissible (n.world,p) e
    | .rollingBack p => Program.asked admissible (n.world,p) e
  | .move m => mayMove n.world m = true
  | _ => True

instance instDecidableMeets (n : Node) (i : Input) : Decidable (meets n i) := by
  unfold meets
  split
  · split <;> infer_instance
  · infer_instance
  · infer_instance

/-- A rollback has kept what clients were told of. -/
def safe (n : Node) : Prop := n.rolledBack = true → n.world.acked = [] ∧ n.world.elsewhere = []

/-- The apply once the old server is stopped. A watermark of an earlier upgrade may still be there. -/
def Node.start (toMajor : U32) (position : U64) (stale : Option Text) : Node where
  world := {insert := position, flush := position, watermark := stale}
  proc := .applying (runApplyAfterStop toMajor).run

end Semantics

section Assertions

def Stable (P : World → Prop) : Prop :=
  ∀ w m w', P w → mayMove w m = true → w.move m = some w' → P w'

theorem Stable.and {P Q : World → Prop} (hP : Stable P) (hQ : Stable Q) :
    Stable fun w => P w ∧ Q w :=
  fun w m w' h hm hw => ⟨hP w m w' h.1 hm hw,hQ w m w' h.2 hm hw⟩

theorem move_frame {w w' : World} {m : Move} (h : w.move m = some w') :
    w'.up = w.up ∧ w'.watermark = w.watermark ∧ w'.applied = w.applied ∧ w'.judged = w.judged := by
  revert h
  fun_cases World.move w m <;> intro h <;> cases h <;> exact ⟨rfl,rfl,rfl,rfl⟩

theorem move_ordered {w w' : World} {m : Move} (hw : w.flush ≤ w.insert) (h : w.move m = some w') :
    w'.flush ≤ w'.insert := by
  revert h
  fun_cases World.move w m <;> intro h <;> cases h
  · next hl => exact hw.trans hl.2
  · next hl => exact hw.trans hl.2.le
  · next hl => exact hl.2.2
  · exact hw
  · exact hw
  · exact le_rfl

/-- The flushed WAL reaches `mark`, and every commit of a client lies past it. -/
structure Marked (mark : U64) (w : World) : Prop where
  flushed : mark ≤ w.flush
  ordered : w.flush ≤ w.insert
  commits : ∀ lsn ∈ w.commits, mark < lsn
  acked : ∀ lsn ∈ w.acked, mark < lsn

theorem stable_marked (mark : U64) : Stable (Marked mark) := by
  rintro w m w' hw - h
  have ho := move_ordered hw.ordered h
  revert h
  fun_cases World.move w m <;> intro h <;> cases h
  · exact {hw with ordered := ho}
  · next hl =>
    refine {hw with ordered := ho, commits := fun c hc => ?_}
    rcases mem_cons.1 hc with rfl | hc
    · exact (hw.flushed.trans hw.ordered).trans_lt hl.2
    · exact hw.commits c hc
  · next hl => exact {hw with flushed := hw.flushed.trans hl.2.1, ordered := ho}
  · next hl =>
    refine {hw with acked := fun c hc => ?_}
    rcases mem_cons.1 hc with rfl | hc
    · exact hw.commits c hl.2.1
    · exact hw.acked c hc
  · exact {hw with}
  · exact {hw with ordered := ho, commits := fun c hc => hw.commits c (mem_filter.1 hc).1}

def Unmarked (w : World) : Prop := w.flush ≤ w.insert ∧ w.applied = false

theorem stable_unmarked : Stable Unmarked :=
  fun _ _ _ hw _ h => ⟨move_ordered hw.1 h,(move_frame h).2.2.1.trans hw.2⟩

/-- The file holds the watermark, or the beginning of it. -/
def Recorded (w : World) : Prop :=
  w.applied = true ∧ ∃ mark, Marked mark w ∧
    ∀ content, w.watermark = some content → ∃ k, content = (watermarkText mark).take k

theorem stable_recorded : Stable Recorded := by
  intro w m w' hw hm h
  obtain ⟨ha,mark,hma,hc⟩ := hw
  obtain ⟨-,hwa,hs,-⟩ := move_frame h
  refine ⟨hs.trans ha,mark,stable_marked mark w m w' hma hm h,fun content hr => ?_⟩
  exact hc content (hwa.symm.trans hr)

theorem Recorded.serving {w : World} (hw : Recorded w) (up judged : Bool) :
    Recorded {w with up := up, judged := judged} := by
  obtain ⟨ha,mark,hm,hc⟩ := hw
  exact ⟨ha,mark,{hm with},hc⟩

/-- What a rollback knows of the commits once it has read the position `final`. -/
structure Judged (final : U64) (w : World) : Prop where
  judged : w.judged = true
  elsewhere : w.elsewhere = []
  acked : ∀ lsn ∈ w.acked, lsn ≤ final

/-- No client was told of a commit, and none is told of one until the rollback ends. -/
structure Clean (w : World) : Prop where
  judged : w.judged = true
  elsewhere : w.elsewhere = []
  acked : w.acked = []

theorem told_frame {w w' : World} {m : Move} (hj : w.judged) (hm : mayMove w m)
    (h : w.move m = some w') : w'.elsewhere = w.elsewhere ∧ w'.acked = w.acked := by
  revert h
  fun_cases World.move w m <;> intro h <;> cases h <;> simp_all [mayMove]

theorem stable_judged (final : U64) : Stable (Judged final) := by
  intro w m w' hw hm h
  obtain ⟨he,ha⟩ := told_frame hw.judged hm h
  refine ⟨(move_frame h).2.2.2.trans hw.judged,he.trans hw.elsewhere,?_⟩
  rw [ha]
  exact hw.acked

def JudgedAt (final : Option U64) (w : World) : Prop := ∀ f, final = some f → Judged f w

theorem stable_judgedAt (final : Option U64) : Stable (JudgedAt final) :=
  fun w m w' hw hm h f hf => stable_judged f w m w' (hw f hf) hm h

theorem stable_clean : Stable Clean := by
  intro w m w' hw hm h
  obtain ⟨he,ha⟩ := told_frame hw.judged hm h
  exact ⟨(move_frame h).2.2.2.trans hw.judged,he.trans hw.elsewhere,ha.trans hw.acked⟩

def Down (w : World) : Prop := w.up = false

theorem stable_down : Stable Down := fun _ _ _ hw _ h => (move_frame h).1.trans hw

theorem Stable.moves {P : World → Prop} (hP : Stable P) {w w' : World} {ms : List Move} (hw : P w)
    (hms : Guarded World.move (fun w m => mayMove w m) w ms)
    (hr : run World.move w ms = some w') : P w' :=
  run_invariant_guarded hP hw hms hr

end Assertions

section Rules

/-- The program ends with `post`, whatever it is answered. -/
abbrev Ends {α : Type} (post : α → World → Prop) (p : Asking α) (w : World) : Prop :=
  p.Keeps answer admissible (fun _ => True) post w

theorem answer_eq_some {w w' : World} {o : Op} {e : Event} {x : Ans o} (h : answer w o e = some (x,w')) :
    ∃ v, run World.move w e.moves = some v ∧ v.reports o e.reply ∧
      e.reply.answer o = some x ∧ w' = v.effect o e.reply := by
  obtain ⟨v,hv,hi⟩ := Option.bind_eq_some_iff.1 h
  obtain ⟨hr,hm⟩ := Option.ite_none_right_eq_some.1 hi
  obtain ⟨x,hx,⟨⟩⟩ := Option.map_eq_some_iff.1 hm
  exact ⟨v,hv,hr,hx,rfl⟩

variable {P : World → Prop} {w : World}

theorem ends_ask (hP : Stable P) {o : Op} {post : Ans o → World → Prop} (hw : P w)
    (hp : ∀ v r x, P v → (o = .flushLsn → readable v) → v.reports o r →
      r.answer o = some x → post x (v.effect o r)) : Ends post (ask o) w := by
  intro e x w' ha han
  obtain ⟨v,hv,hr,hx,rfl⟩ := answer_eq_some han
  have hPv := hP.moves hw ha.1 hv
  exact ⟨trivial,hp v e.reply x hPv (fun ho => ha.2 ho v hv) hr hx⟩

theorem ends_only {α : Type} {kind : Op → Prop} (hP : Stable P)
    (he : ∀ v o r, kind o → P v → P (v.effect o r)) {p : Asking α} (hp : p.Only kind) (hw : P w) :
    Ends (fun _ w => P w) p w := by
  refine keeps_of_only (fun w o e x w' ho hw ha han => ?_) hp hw
  obtain ⟨v,hv,-,-,rfl⟩ := answer_eq_some han
  exact ⟨trivial,he v o e.reply ho (hP.moves hw ha.1 hv)⟩

section Only

def early : Op → Bool
  | .flushLsn | .writeWatermark _ => false
  | _ => true

def late : Op → Bool
  | .stage .startNew | .stage .stop | .flushLsn | .writeWatermark _ => false
  | _ => true

variable {kind : Op → Prop}

theorem only_stage {s : Stage} (h : kind (.stage s)) : (stage s).run.Only kind := by
  refine only_bind (only_lift (only_perform h)) fun r => ?_
  cases r with
  | ok b => cases b <;> exact trivial
  | error err => exact trivial

theorem only_probeSite {toMajor : U32} (h : kind (.probeSite toMajor)) :
    (probeSite toMajor).run.Only kind := by
  refine only_bind_except (only_lift (only_perform h)) fun site => ?_
  cases site <;> exact trivial

theorem only_analyzeInStages (toMajor : U32) :
    (analyzeInStages toMajor).run.Only (early ·) := by
  refine only_bind_except (only_lift (only_perform rfl)) fun isFile => ?_
  cases isFile with
  | true =>
    refine only_bind_except (only_stage rfl) fun _ => ?_
    refine only_bind_except (only_lift (only_perform rfl)) fun b => ?_
    split <;> exact trivial
  | false =>
    dsimp only
    split <;> exact trivial

theorem only_upgradeStages (toMajor : U32) : (upgradeStages toMajor).run.Only (early ·) := by
  refine only_bind_except (only_stage rfl) fun _ => ?_
  refine only_bind_except (only_stage rfl) fun _ => ?_
  refine only_bind_except (only_stage rfl) fun _ => ?_
  refine only_bind_except (only_stage rfl) fun _ => ?_
  refine only_bind_except (only_stage rfl) fun _ => ?_
  refine only_bind_except (only_stage rfl) fun _ => ?_
  refine only_bind_except (only_analyzeInStages toMajor) fun _ => ?_
  exact only_bind_except (only_probeSite rfl) fun _ => trivial

theorem only_checkCatalogs (fromMajor : U32) : (checkCatalogs fromMajor).run.Only (late ·) := by
  refine only_bind_except (only_lift (only_perform rfl)) fun reply => ?_
  cases reply with
  | none => exact trivial
  | some reply =>
    dsimp only
    split
    · exact trivial
    · refine only_bind_except (only_lift (only_perform rfl)) fun live => ?_
      split <;> exact trivial

theorem only_startOldMajor (fromMajor : U32) (newDataDir : Option Text) :
    (startOldMajor fromMajor newDataDir).run.Only (late ·) := by
  have ha : (moveAside newDataDir).run.Only (late ·) := by
    cases newDataDir with
    | none => exact trivial
    | some dir => exact only_stage rfl
  refine only_bind_except (only_stage rfl) fun _ => ?_
  refine only_bind_except (only_stage rfl) fun _ => ?_
  refine only_bind_except (only_checkCatalogs fromMajor) fun _ => ?_
  refine only_bind_except ha fun _ => ?_
  exact only_bind_except (only_lift (only_perform rfl)) fun _ => trivial

end Only
end Rules

section Flow
variable {w : World}

theorem marked_of_readable {v : World} (hv : Unmarked v) (h : readable v) : Marked v.flush v := by
  rw [readable,hv.2] at h
  obtain ⟨hc,ha⟩ := Bool.and_eq_true_iff.1 h
  refine ⟨le_rfl,hv.1,fun lsn hl => ?_,fun lsn hl => ?_⟩
  · exact of_decide_eq_true (all_eq_true.1 hc lsn hl)
  · exact of_decide_eq_true (all_eq_true.1 ha lsn hl)

theorem parse_flush_reply {v : World} {t : Option Text} {lsn : U64}
    (hr : v.reports .flushLsn (.text t))
    (h : (t.bind fun raw => parseLsnBytes (trim raw)) = some lsn) : lsn = v.flush := by
  obtain ⟨raw,rfl,hp⟩ := Option.bind_eq_some_iff.1 h
  obtain ⟨-,ht⟩ := Bool.and_eq_true_iff.1 hr
  rw [of_decide_eq_true ht,parseLsnBytes_lsnText] at hp
  exact (Option.some.inj hp).symm

theorem ends_recordWatermark (hw : Unmarked w) :
    Ends (fun r w => ∀ u, r = .ok u → Recorded w) recordWatermark.run w := by
  have hrd : Ends (fun r w => ∀ lsn, r = some lsn → Marked lsn w) flushLsnBytes w := by
    refine keeps_bind (ends_ask stable_unmarked hw fun v r x hv hre hrp hx => ?_)
    rintro lsn hl
    cases r with
    | text t =>
      cases hx
      rw [parse_flush_reply hrp hl]
      exact {marked_of_readable hv (hre rfl) with}
    | _ => cases hx
  refine keeps_bind_except (keeps_lift (hrd.mono fun r w hr => ?_))
  cases r with
  | none => rintro u ⟨⟩
  | some lsn =>
    refine keeps_bind_except (keeps_lift ?_)
    refine ends_ask (stable_marked lsn) (hr lsn rfl) fun v r x hv _ _ hx => ?_
    cases r with
    | flag b =>
      obtain rfl : b = x := Option.some.inj hx
      cases b with
      | true =>
        rintro u -
        refine ⟨rfl,lsn,{hv with},fun content hc => ⟨(watermarkText lsn).length,?_⟩⟩
        rw [take_length]
        exact (Option.some.inj hc).symm
      | false => rintro u ⟨⟩
    | _ => cases hx

theorem ends_runApplyAfterStop (hw : Unmarked w) (toMajor : U32) :
    Ends (fun r w => ∀ u, r = .ok u → Recorded w) (runApplyAfterStop toMajor).run w := by
  have hk : ∀ v o r, early o → Unmarked v → Unmarked (v.effect o r) := by
    intro v o r ho hv
    unfold World.effect
    split
    · exact hv
    · exact hv
    · cases ho
    · cases ho
    · exact hv
    · exact hv
  have hs := ends_only stable_unmarked hk (only_upgradeStages toMajor) hw
  refine keeps_bind_except (hs.mono fun r w hr => ?_)
  cases r with
  | ok _ => exact ends_recordWatermark hr
  | error err => rintro u ⟨⟩

/-- How a rollback ends: the watermark is still good, and if it succeeded clients were told of no
commit. -/
def Settled {α : Type} (r : Except Failure α) (w : World) : Prop :=
  Recorded w ∧ ∀ a, r = .ok a → Clean w ∧ Down w

theorem settled_error {α : Type} {err : Failure} (hw : Recorded w) :
    Settled (.error err : Except Failure α) w := ⟨hw,fun _ h => nomatch h⟩

structure Stopped (w : World) : Prop where
  recorded : Recorded w
  clean : Clean w
  down : Down w

theorem stable_stopped : Stable Stopped := fun w m w' hw hm h =>
  ⟨stable_recorded w m w' hw.recorded hm h,stable_clean w m w' hw.clean hm h,
    stable_down w m w' hw.down hm h⟩

theorem Recorded.withoutFile {v : World} (hv : Recorded v) : Recorded {v with watermark := none} := by
  obtain ⟨ha,mark,hm,_⟩ := hv
  exact ⟨ha,mark,{hm with},fun content h => nomatch h⟩

theorem stopped_effect (v : World) (o : Op) (r : Reply) (ho : late o) (hv : Stopped v) :
    Stopped (v.effect o r) := by
  unfold World.effect
  split
  · cases ho
  · cases ho
  · cases ho
  · cases ho
  · exact ⟨hv.recorded.withoutFile,{hv.clean with},hv.down⟩
  · exact hv

theorem ends_stop (hr : Recorded w) (hc : Clean w) :
    Ends (fun r w => Recorded w ∧ ∀ u, r = .ok u → Stopped w) (stage .stop).run w := by
  refine keeps_bind_except (keeps_lift ?_)
  refine ends_ask (stable_recorded.and stable_clean) ⟨hr,hc⟩ fun v r x hv _ _ hx => ?_
  cases r with
  | flag b =>
    obtain rfl : b = x := Option.some.inj hx
    cases b with
    | true =>
      have hr : Recorded {v with up := false} := hv.1.serving false v.judged
      exact ⟨hr,fun _ _ => ⟨hr,{hv.2 with},rfl⟩⟩
    | false => exact ⟨hv.1,fun _ h => nomatch h⟩
  | _ => cases hx

theorem ends_rollbackOnto (hre : Recorded w) (hc : Clean w) (fromMajor : U32)
    (newDataDir : Option Text) : Ends Settled (rollbackOnto fromMajor newDataDir).run w := by
  have hst := stable_recorded.and stable_clean
  refine keeps_bind_except (keeps_lift ?_)
  refine ends_ask hst ⟨hre,hc⟩ fun v r known hv _ _ _ => ?_
  cases known with
  | false => exact settled_error hv.1
  | true =>
    refine keeps_bind_except ((ends_stop hv.1 hv.2).mono fun r w hr => ?_)
    cases r with
    | error err => exact settled_error hr.1
    | ok _ =>
      have hs := ends_only stable_stopped stopped_effect (only_startOldMajor fromMajor newDataDir)
        (hr.2 () rfl)
      exact hs.mono fun r w hw => ⟨hw.recorded,fun a _ => ⟨hw.clean,hw.down⟩⟩

theorem ends_readUnfreezeWatermark {final : Option U64} (hr : Recorded w)
    (hj : JudgedAt final w) :
    Ends (fun r w => (Recorded w ∧ JudgedAt final w) ∧ ∀ mark, r = some mark → ∀ lsn ∈ w.acked, mark < lsn)
      readUnfreezeWatermark w := by
  refine keeps_bind (ends_ask (stable_recorded.and (stable_judgedAt final)) ⟨hr,hj⟩
    fun v r x hv _ hre hx => ⟨hv,fun mark hma lsn hl => ?_⟩)
  cases r with
  | text t =>
    obtain rfl : t = x := Option.some.inj hx
    obtain ⟨content,rfl,hp⟩ := Option.bind_eq_some_iff.1 hma
    obtain ⟨-,written,hm,hc⟩ := hv.1
    obtain ⟨k,rfl⟩ := hc content (of_decide_eq_true hre)
    exact (parseWatermark_take hp).trans_lt (hm.acked lsn hl)
  | _ => cases hx

/-- A commit that a client was told of is flushed when the position is read, so a position that is not
past the watermark leaves none. -/
theorem clean_of_not_discard {mark final : Option U64} (hj : JudgedAt final w)
    (hm : ∀ m, mark = some m → ∀ lsn ∈ w.acked, m < lsn)
    (h : rollbackMayDiscardWrites mark final = false) : Clean w := by
  cases mark with
  | none => cases h
  | some m =>
    cases final with
    | none => cases h
    | some f =>
      have hf := hj f rfl
      have hle : f ≤ m := not_lt.1 (of_decide_eq_false h)
      refine ⟨hf.judged,hf.elsewhere,List.eq_nil_iff_forall_not_mem.2 fun lsn hl => ?_⟩
      have hp : m < lsn := hm m rfl lsn hl
      exact absurd hp ((hf.acked lsn hl).trans hle).not_gt

theorem ends_flushLsnBytes (hw : Recorded w) :
    Ends (fun final w => Recorded w ∧ JudgedAt final w) flushLsnBytes w := by
  refine keeps_bind (ends_ask stable_recorded hw fun v r x hv hr hre hx => ?_)
  refine ⟨hv.serving v.up v.applied,fun final hf => ?_⟩
  have ht := hr rfl
  rw [readable,if_pos hv.1] at ht
  obtain ⟨ha,he⟩ := Bool.and_eq_true_iff.1 ht
  cases r with
  | text t =>
    obtain rfl : t = x := Option.some.inj hx
    rw [parse_flush_reply hre hf]
    refine ⟨hv.1,of_decide_eq_true he,fun lsn hl => ?_⟩
    exact of_decide_eq_true (all_eq_true.1 ha lsn hl)
  | _ => cases hx

theorem ends_rollbackFrom (hw : Recorded w) (site : UpgradeSite) (oldDataDir : Text)
    (fromMajor toMajor : U32) :
    Ends Settled (rollbackFrom site oldDataDir fromMajor toMajor false).run w := by
  refine keeps_bind_except (keeps_lift ((ends_flushLsnBytes hw).mono fun final w hw => ?_))
  have hre := ends_readUnfreezeWatermark hw.1 hw.2
  refine keeps_bind_except (keeps_lift (hre.mono fun mark w hw => ?_))
  dsimp only
  split
  next => exact settled_error hw.1.1
  next hd =>
    have hc := clean_of_not_discard hw.1.2 hw.2 (by simpa using hd)
    refine keeps_bind_except ((ends_rollbackOnto hw.1.1 hc _ _).mono fun r w hr => ?_)
    cases r with
    | ok _ => exact ⟨hr.1,fun _ _ => hr.2 () rfl⟩
    | error err => exact settled_error hr.1

theorem ends_rollbackLocal (hw : Recorded w) (toMajor : U32) :
    Ends Settled (rollbackLocal toMajor false).run w := by
  have hs : Ends (fun _ w => Recorded w) (probeSite toMajor).run w :=
    ends_only stable_recorded (fun v o r ho hv => by cases ho; exact hv)
      (@only_probeSite (· = .probeSite toMajor) toMajor rfl) hw
  refine keeps_bind_except (hs.mono fun r w hw => ?_)
  cases r with
  | error err => exact settled_error hw
  | ok site =>
    dsimp only
    split
    next =>
      split
      · exact ends_rollbackFrom hw _ _ _ _
      · exact settled_error hw
    next => exact settled_error hw

end Flow

section Runs

/-- What is known of the node while the handler it runs has still to end. -/
def Running : Proc → World → Prop
  | .idle, w => Recorded w
  | .applying p, w => Ends (fun r w => ∀ u, r = .ok u → Recorded w) p w
  | .rollingBack p, w => Ends Settled p w

structure Inv (n : Node) : Prop where
  running : Running n.proc n.world
  rolledBack : n.rolledBack = true → n.proc = .idle ∧ Clean n.world ∧ Down n.world

theorem recorded_truncate {w : World} (hw : Recorded w) (length : Option ℕ) :
    Recorded {w with watermark := length.bind fun k => w.watermark.map (·.take k)} := by
  obtain ⟨ha,mark,hm,hc⟩ := hw
  refine ⟨ha,mark,{hm with},fun content h => ?_⟩
  obtain ⟨k,-,hma⟩ := Option.bind_eq_some_iff.1 h
  obtain ⟨whole,hwh,rfl⟩ := Option.map_eq_some_iff.1 hma
  obtain ⟨j,rfl⟩ := hc whole hwh
  exact ⟨min k j,take_take⟩

/-- Every input keeps the mark: the end of an apply leaves it, and a rollback that succeeded no commit. -/
theorem inv_step (n : Node) (i : Input) (n' : Node) (hn : Inv n) (hm : meets n i)
    (hs : step n i = some n') : Inv n' := by
  obtain ⟨w,proc,rolledBack⟩ := n
  obtain ⟨hru,hr⟩ := hn
  cases i <;> cases proc <;> try cases hs
  case reply.applying e p | reply.rollingBack e p =>
    obtain ⟨c,hc,rfl⟩ := Option.map_eq_some_iff.1 hs
    have hre := keeps_step (c := (w,p)) hru hm hc
    exact ⟨hre.2,fun h => nomatch (hr h).1⟩
  case finish.applying p =>
    rcases p with (_ | u) | _ <;> cases hs
    exact ⟨hru u rfl,fun h => nomatch (hr h).1⟩
  case finish.rollingBack p =>
    rcases p with (_ | report) | _ <;> cases hs
    · exact ⟨hru.1.serving w.up false,fun h => nomatch (hr h).1⟩
    · exact ⟨hru.1,fun _ => ⟨rfl,hru.2 report rfl⟩⟩
  case move.idle m =>
    obtain ⟨w',hw',rfl⟩ := Option.map_eq_some_iff.1 hs
    refine ⟨stable_recorded w m w' hru hm hw',fun h => ⟨rfl,?_⟩⟩
    obtain ⟨-,hcl,hd⟩ := hr h
    exact ⟨stable_clean w m w' hcl hm hw',stable_down w m w' hd hm hw'⟩
  case restart.idle =>
    obtain ⟨hno,⟨⟩⟩ := Option.ite_none_left_eq_some.1 hs
    exact ⟨hru.serving true w.judged,fun h => absurd h hno⟩
  case rollback.idle toMajor =>
    obtain ⟨hno,⟨⟩⟩ := Option.ite_none_left_eq_some.1 hs
    exact ⟨ends_rollbackLocal hru toMajor,fun h => absurd h hno⟩
  case truncate.idle length =>
    refine ⟨recorded_truncate hru length,fun h => ⟨rfl,?_⟩⟩
    obtain ⟨-,hcl,hd⟩ := hr h
    exact ⟨{hcl with},hd⟩

theorem inv_start (toMajor : U32) (position : U64) (stale : Option Text) :
    Inv (Node.start toMajor position stale) :=
  ⟨ends_runApplyAfterStop ⟨le_rfl,rfl⟩ toMajor,fun h => nomatch h⟩

/-- A rollback that succeeds without consent has lost no commit that a client was told of, provided that
none was flushed when the apply read the watermark, that all were when the rollback read the position, and
that no client is told of one after that. -/
theorem rollback_keeps_acknowledged (toMajor : U32) (position : U64) (stale : Option Text)
    {is : List Input} {n : Node} (hmeets : Guarded step meets (Node.start toMajor position stale) is)
    (hrun : run step (Node.start toMajor position stale) is = some n) : safe n := by
  have hi := run_invariant_guarded inv_step (inv_start toMajor position stale) hmeets hrun
  intro h
  obtain ⟨-,hc,-⟩ := hi.rolledBack h
  exact ⟨hc.acked,hc.elsewhere⟩

def said (b : Bool) : Input := .reply {reply := .flag b}
def siteOf17 : UpgradeSite := ⟨some "data".toList,some 17,some "data_18".toList,true⟩
def site : Input := .reply {reply := .site (some siteOf17)}

def upgraded : List Input := List.replicate 9 (said true)++[site]
def watermarkAt (moves : List Move) (lsn : U64) : List Input :=
  [.reply ⟨moves,.text (some (lsnText lsn))⟩,said true,.finish]

def judgedAt (lsn mark : U64) : List Input :=
  [.rollback 18,site,.reply {reply := .text (some (lsnText lsn))},
    .reply {reply := .text (some (watermarkText mark))},said true]
def stopAndStart (moves : List Move) : List Input :=
  [.reply ⟨moves,.flag true⟩,said true,said true,.reply {reply := .text (some "415".toList)},
    .reply {reply := .major (some 17)},said true,said true,.finish]

/-- A client has begun to commit but was told of nothing. -/
theorem rollback_keeps_acknowledged_untouched :
    let is := upgraded++watermarkAt [] 4096++.move (.commit 5000)::judgedAt 4096 4096++stopAndStart []
    (run step (Node.start 18 4096 none) is).any (·.rolledBack) ∧
      ∀ n, run step (Node.start 18 4096 none) is = some n → safe n :=
  ⟨by decide +kernel,fun _ hr => rollback_keeps_acknowledged 18 4096 none (by decide +kernel) hr⟩

def synchronousCommit : List Move := [.commit 5000,.flush 5000,.acknowledge 5000 true]

/-- A commit with `synchronous_commit` off that is not flushed yet; one between the reading of the
position and the stop; one that a session made before the watermark was read; and one on another node. -/
def lossy : List (List Input) :=
  [upgraded++watermarkAt [] 4096++[.move (.commit 5000),.move (.acknowledge 5000 false)]++
      judgedAt 4096 4096++stopAndStart [],
    upgraded++watermarkAt [] 4096++judgedAt 4096 4096++stopAndStart synchronousCommit,
    upgraded++watermarkAt synchronousCommit 5000++judgedAt 5000 5000++stopAndStart [],
    upgraded++watermarkAt [] 4096++.move (.acknowledgeElsewhere 5000)::judgedAt 4096 4096++
      stopAndStart []]

theorem rollback_loses_acknowledged : lossy.Forall fun is => ∃ n, run step (Node.start 18 4096 none) is = some n ∧
    ¬safe n := by
  have hal : lossy.all (fun is => (run step (Node.start 18 4096 none) is).any fun n =>
      n.rolledBack && !(n.world.acked = [] && n.world.elsewhere = [])) := by decide +kernel
  rw [forall_iff_forall_mem]
  intro is his
  obtain ⟨n,hru,hn⟩ := (Option.any_eq_true _ _).1 (all_eq_true.1 hal is his)
  obtain ⟨hr,hl⟩ := Bool.and_eq_true_iff.1 hn
  refine ⟨n,hru,fun hs => ?_⟩
  obtain ⟨ha,he⟩ := hs hr
  simp [ha,he] at hl

end Runs
end Rollback
end PgBattery
