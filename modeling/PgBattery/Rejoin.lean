import PgBattery.Following
import PgBattery.Commands

/-! The rejoin of a standby after a major upgrade. The handler reads the upgrade record once, takes two
locks, asks the source for its version, and clears the data directory for a copy of the source. -/
namespace PgBattery
namespace Rejoin
open SqlReply Interaction TransitionSystem StateMachine List Program
open Following (servesClusterLineage)

structure Request where
  toMajor : U32
  leaderPgHost : Text
  leaderPgPort : U16
  pgUser : Text
  deriving DecidableEq

/-- `pg_bin_dirs`. -/
abbrev BinDirs := List (U32 × Text)

inductive Op
  | pgPaths
  | postgresManager
  | readRecord
  | tryLockUpgrade
  | lockSupervisor
  | serverVersion (host : Text) (port : U16) (user : Text)
  | stop
  | dataDirExists
  | clearContents
  | createDataDir
  | createSlot (bindir : Text) (node : NodeId)
  | pgBasebackup (bindir : Text) (node : NodeId)
  | start
  | persistRetarget
  deriving DecidableEq

/-- The answer to a question. `createSlot` answers with `psql`'s error output, if it failed. -/
def Ans : Op → Type
  | .pgPaths => Option BinDirs
  | .readRecord => PgUpgradeState
  | .serverVersion .. => Option Text
  | .createSlot .. => Option (Option Text)
  | .lockSupervisor | .persistRetarget => Unit
  | _ => Bool

inductive Failure
  | noPaths
  | noSupervisor
  | refused (why : Text)
  | inProgress
  | versionProbe
  | noBinDir (major : U32)
  | stop
  | wipe
  | slot (output : Text)
  | basebackup
  | start
  deriving DecidableEq

abbrev Asking := Program Op Ans
abbrev Fallible := ExceptT Failure Asking

section Programs

def ask (o : Op) : Asking (Ans o) := Program.perform o

def rejoinRefusal (record : PgUpgradeState) (nodeId : NodeId) : Option Text :=
  if record.leavesStopped nodeId then none
  else some "the upgrade record does not list this node for rejoin".toList

def splitWhitespace (s : Text) : List Text := (s.splitOnP whitespace).filter (· ≠ [])

def parseMajor (digits : Text) : Option U32 :=
  let n := Nat.ofDigitChars 10 digits 0
  if h : n < 4294967296 then some ⟨n,h⟩ else none

/-- The digits that the first word to begin with one begins with. -/
def parsePostgresMajor (versionStdout : Text) : Option U32 :=
  ((splitWhitespace versionStdout).find? fun token => token.head?.any (·.isDigit)).bind fun token =>
    parseMajor (token.takeWhile (·.isDigit))

/-- The binaries follow the primary's major, whatever the request names. -/
def rejoinBindirForPrimary (probedPrimaryMajor _requestedMajor : U32) (binDirs : BinDirs) :
    Option Text := binDirs.lookup probedPrimaryMajor

def require (o : Op) (ok : Ans o → Bool) (failure : Failure) : Fallible Unit := do
  let x ← ask o
  if ok x then pure () else throw failure

def probePrimaryMajor (req : Request) : Fallible U32 := do
  let stdout : Option Text ← ask (.serverVersion req.leaderPgHost req.leaderPgPort req.pgUser)
  match stdout.bind parsePostgresMajor with
  | some major => pure major
  | none => throw .versionProbe

/-- The directory stays, for it may be a volume mount; its contents go. -/
def wipe : Fallible Unit := do
  match (← ask .dataDirExists : Bool) with
  | true => require .clearContents id .wipe
  | false => require .createDataDir id .wipe

def alreadyExists (stderr : Text) : Bool :=
  Rewind.occurs "already exists".toList (stderr.map Rewind.toAsciiLower)

def createSlot (bindir : Text) (nodeId : NodeId) : Fallible Unit := do
  match (← ask (.createSlot bindir nodeId) : Option (Option Text)) with
  | none => throw (.slot [])
  | some none => pure ()
  | some (some stderr) => if alreadyExists stderr then pure () else throw (.slot stderr)

def runStandbyRebasebackup (binDirs : BinDirs) (req : Request) (nodeId : NodeId) : Fallible Unit := do
  let primaryMajor ← probePrimaryMajor req
  match rejoinBindirForPrimary primaryMajor req.toMajor binDirs with
  | none => throw (.noBinDir primaryMajor)
  | some newBindir => do
    require .stop id .stop
    wipe
    createSlot newBindir nodeId
    require (.pgBasebackup newBindir nodeId) id .basebackup
    require .start id .start

def rejoinLocked (binDirs : BinDirs) (req : Request) (nodeId : NodeId) : Fallible Unit := do
  let _locked : Unit ← ask .lockSupervisor
  runStandbyRebasebackup binDirs req nodeId
  let _persisted : Unit ← ask .persistRetarget

def rejoinListed (binDirs : BinDirs) (req : Request) (nodeId : NodeId) (record : PgUpgradeState) :
    Fallible Unit :=
  match rejoinRefusal record nodeId with
  | some why => throw (.refused why)
  | none => do
    require .tryLockUpgrade id .inProgress
    rejoinLocked binDirs req nodeId

def postgresUpgradeRejoin (req : Request) (nodeId : NodeId) : Fallible Unit := do
  match (← ask .pgPaths : Option BinDirs) with
  | none => throw .noPaths
  | some binDirs => do
    require .postgresManager id .noSupervisor
    let record : PgUpgradeState ← ask .readRecord
    rejoinListed binDirs req nodeId record

end Programs

section Semantics
variable (nodeId : NodeId)

structure Standing where
  record : PgUpgradeState
  lineage : Option U64
  leader : Bool
  source : Option U64
  deriving DecidableEq

def authorized (s : Standing) : Bool :=
  s.record.leavesStopped nodeId && !s.record.frozen && !s.leader &&
    servesClusterLineage (.committed s.lineage) s.source

/-- `cleared` has how the node stood each time the directory was cleared. -/
structure World where
  state : ClusterState
  leader : Bool
  /-- The lineage served at an address, if any. -/
  source : Text → U16 → Option U64
  upgradeLock : Bool := false
  supervisorLock : Bool := false
  cleared : List Standing := []

def World.standing (w : World) (req : Request) : Standing where
  record := w.state.pgUpgrade
  lineage := w.state.lineage
  leader := w.leader
  source := w.source req.leaderPgHost req.leaderPgPort

/-- How far a handler has come: it has read a record that lists the node, or cleared the directory. -/
inductive Stage
  | fresh
  | checked
  | cleared
  | unchecked
  deriving DecidableEq

def Stage.next (s : Stage) : (o : Op) → Ans o → Stage
  | .readRecord, (record : PgUpgradeState) => if record.leavesStopped nodeId then .checked else s
  | .clearContents, _ => if s = .checked then .cleared else .unchecked
  | _, _ => s

structure Handler where
  req : Request
  stage : Stage := .fresh
  holdsUpgrade : Bool := false
  holdsSupervisor : Bool := false
  program : Asking (Except Failure Unit)

inductive Reply
  | paths (p : Option BinDirs)
  | record (r : PgUpgradeState)
  | text (t : Option Text)
  | ran (output : Option (Option Text))
  | flag (b : Bool)
  | done

def Reply.answer : (o : Op) → Reply → Option (Ans o)
  | .pgPaths, .paths p => some p
  | .readRecord, .record r => some r
  | .serverVersion .., .text t => some t
  | .createSlot .., .ran output => some output
  | .lockSupervisor, .done | .persistRetarget, .done => some ()
  | .postgresManager, .flag b | .tryLockUpgrade, .flag b | .stop, .flag b => some b
  | .dataDirExists, .flag b | .clearContents, .flag b | .createDataDir, .flag b => some b
  | .pgBasebackup .., .flag b | .start, .flag b => some b
  | _, _ => none

/-- The record is read as it was applied, and a lock is had by one handler at a time. -/
def World.reports (w : World) : Op → Reply → Bool
  | .readRecord, .record r => r = w.state.pgUpgrade
  | .tryLockUpgrade, .flag b => b = !w.upgradeLock
  | .lockSupervisor, _ => !w.supervisorLock
  | _, _ => true

/-- A clearing that fails has cleared a part. -/
def World.effect (w : World) (req : Request) : Op → World
  | .tryLockUpgrade => {w with upgradeLock := true}
  | .lockSupervisor => {w with supervisorLock := true}
  | .clearContents => {w with cleared := w.standing req::w.cleared}
  | _ => w

structure Node where
  world : World
  handlers : List Handler := []

inductive Input
  | request (req : Request)
  | reply (i : ℕ) (r : Reply)
  | close (i : ℕ)
  | apply (entries : List (U64 × ClusterCommand))
  | lead (leader : Bool)
  | serve (host : Text) (port : U16) (lineage : Option U64)
  | upgradeLock (held : Bool)
  | supervisorLock (held : Bool)

def advance (s : ClusterState) (entries : List (U64 × ClusterCommand)) : ClusterState :=
  entries.foldl (fun s e => (s.applyEntry e.1 e.2).1) s

/-- What the handler asks is answered, with the handler's own account of it. -/
def answerHandler (w : World) (h : Handler) (r : Reply) : Option (World × Handler) :=
  match h.program with
  | .pure _ => none
  | .ask o k =>
    if w.reports o r then
      (r.answer o).map fun x => (w.effect h.req o,{h with
        stage := h.stage.next nodeId o x
        holdsUpgrade := h.holdsUpgrade || (o = .tryLockUpgrade && !w.upgradeLock)
        holdsSupervisor := h.holdsSupervisor || o = .lockSupervisor
        program := k x})
    else none

def step (n : Node) : Input → Option Node
  | .request req =>
    some {n with handlers := n.handlers++[{req, program := (postgresUpgradeRejoin req nodeId).run}]}
  | .reply i r =>
    n.handlers[i]?.bind fun h => (answerHandler nodeId n.world h r).map fun c =>
      {n with world := c.1, handlers := n.handlers.set i c.2}
  -- it has answered, or its caller has gone: the locks it holds are released either way
  | .close i =>
    n.handlers[i]?.map fun h =>
      {n with
        world := {n.world with
          upgradeLock := n.world.upgradeLock && !h.holdsUpgrade
          supervisorLock := n.world.supervisorLock && !h.holdsSupervisor}
        handlers := n.handlers.eraseIdx i}
  | .apply entries => some {n with world := {n.world with state := advance n.world.state entries}}
  | .lead leader => some {n with world := {n.world with leader}}
  | .serve host port lineage =>
    some {n with world := {n.world with source := fun h p =>
      if h = host ∧ p = port then lineage else n.world.source h p}}
  | .upgradeLock held =>
    if n.handlers.any (·.holdsUpgrade) then none
    else some {n with world := {n.world with upgradeLock := held}}
  | .supervisorLock held =>
    if n.handlers.any (·.holdsSupervisor) then none
    else some {n with world := {n.world with supervisorLock := held}}

/-- Some handler has read the record and has yet to clear the directory. -/
def Node.pending (n : Node) : Bool := n.handlers.any fun h => h.stage = .checked

def releases : ClusterCommand → Bool
  | .pgUpgradeRejoined id | .removeNode id => id = nodeId
  | _ => false

/-- A record that lists the node is read only when the freeze has been served, the node does not lead and
the source serves the committed lineage; and until the directory is cleared the node is not taken off the
record, does not come to lead, and the source's data is not replaced. -/
def meets (n : Node) : Input → Prop
  | .reply i (.record r) =>
    r.leavesStopped nodeId = true → ∀ h ∈ n.handlers[i]?, authorized nodeId (n.world.standing h.req) = true
  | .apply entries => n.pending = true → ∀ e ∈ entries, releases nodeId e.2 = false
  | .lead leader => n.pending = true → leader = false
  | .serve host port lineage => ∀ h ∈ n.handlers, h.stage = .checked → h.req.leaderPgHost = host →
      h.req.leaderPgPort = port → lineage = n.world.source host port
  | _ => True

instance instDecidableMeets (n : Node) (i : Input) : Decidable (meets nodeId n i) := by
  unfold meets
  split <;> infer_instance

def safe (n : Node) : Prop := ∀ s ∈ n.world.cleared, authorized nodeId s = true

def Node.start (state : ClusterState) (leader : Bool) (source : Text → U16 → Option U64) : Node where
  world := {state, leader, source}

end Semantics

section Discipline
variable {nodeId : NodeId}

def stageAnswer (nodeId : NodeId) (s : Stage) (o : Op) (r : Reply) : Option (Ans o × Stage) :=
  (r.answer o).map fun x => (x,s.next nodeId o x)

/-- The program never clears the directory before it has read a record that lists the node. -/
abbrev Checks (nodeId : NodeId) {α : Type} (post : α → Stage → Prop) (p : Asking α) (s : Stage) : Prop :=
  p.Keeps (stageAnswer nodeId) (fun _ _ _ => True) (· ≠ .unchecked) post s

def Sound {α : Type} (_ : α) (s : Stage) : Prop := s ≠ .unchecked

def quiet : Op → Bool
  | .readRecord | .clearContents => false
  | _ => true

theorem next_of_quiet {o : Op} (ho : quiet o) (s : Stage) (x : Ans o) : s.next nodeId o x = s := by
  cases o with
  | readRecord => cases ho
  | clearContents => cases ho
  | _ => rfl

theorem checks_quiet {α : Type} {p : Asking α} (hp : p.Only (quiet ·)) {s : Stage}
    (hs : s ≠ .unchecked) : Checks nodeId (fun _ s' => s' = s) p s := by
  refine keeps_of_only (fun s' o r x s'' ho hs' _ h => ?_) hp rfl
  obtain ⟨y,-,hxy⟩ := Option.map_eq_some_iff.1 h
  cases hxy
  rw [next_of_quiet ho,hs']
  exact ⟨hs,rfl⟩

theorem only_require {o : Op} (ho : quiet o) (ok : Ans o → Bool) (failure : Failure) :
    (require o ok failure).run.Only (quiet ·) := by
  refine only_bind_except (only_lift (only_perform ho)) fun x => ?_
  split <;> exact trivial

theorem only_probePrimaryMajor (req : Request) : (probePrimaryMajor req).run.Only (quiet ·) := by
  refine only_bind_except (only_lift (only_perform rfl)) fun stdout => ?_
  split <;> exact trivial

theorem only_createSlot (bindir : Text) : (createSlot bindir nodeId).run.Only (quiet ·) := by
  refine only_bind_except (only_lift (only_perform rfl)) fun output => ?_
  split
  · exact trivial
  · exact trivial
  · split <;> exact trivial

theorem checks_quiet_bind {α β : Type} {p : Fallible α} {f : α → Fallible β}
    (hp : p.run.Only (quiet ·)) {s : Stage} (hs : s ≠ .unchecked)
    (hf : ∀ a, Checks nodeId Sound (f a).run s) : Checks nodeId Sound (p >>= f).run s := by
  refine keeps_bind_except ((checks_quiet hp hs).mono fun r s' hs' => ?_)
  subst hs'
  cases r with
  | ok a => exact hf a
  | error err => exact hs

theorem checks_of_quiet {α : Type} {p : Asking α} (hp : p.Only (quiet ·)) {s : Stage}
    (hs : s ≠ .unchecked) : Checks nodeId Sound p s :=
  (checks_quiet hp hs).mono fun _ s' hs' => by
    rw [hs']
    exact hs

theorem checks_clearContents : Checks nodeId Sound (require .clearContents id .wipe).run .checked := by
  refine keeps_bind_except (keeps_lift fun r x s' _ h => ?_)
  obtain ⟨y,-,hxy⟩ := Option.map_eq_some_iff.1 h
  cases hxy
  have hc : Stage.next nodeId .checked .clearContents x ≠ .unchecked := fun h => nomatch h
  refine ⟨hc,?_⟩
  cases x with
  | true => exact hc
  | false => exact hc

theorem checks_wipe : Checks nodeId Sound wipe.run .checked := by
  have he : (ExceptT.lift (ask .dataDirExists) : Fallible Bool).run.Only (quiet ·) :=
    only_lift (only_perform rfl)
  refine checks_quiet_bind he (by decide) fun present => ?_
  cases present with
  | true => exact checks_clearContents
  | false => exact checks_of_quiet (@only_require .createDataDir rfl id .wipe) (by decide)

theorem only_copy (bindir : Text) : (do
    createSlot bindir nodeId
    require (.pgBasebackup bindir nodeId) id .basebackup
    require .start id .start : Fallible Unit).run.Only (quiet ·) := by
  refine only_bind_except (only_createSlot bindir) fun _ => ?_
  refine only_bind_except (@only_require (.pgBasebackup bindir nodeId) rfl id _) fun _ => ?_
  exact @only_require .start rfl id _

theorem checks_runStandbyRebasebackup (binDirs : BinDirs) (req : Request) :
    Checks nodeId Sound (runStandbyRebasebackup binDirs req nodeId).run .checked := by
  refine checks_quiet_bind (only_probePrimaryMajor req) (by decide) fun primaryMajor => ?_
  split
  next => exact fun h => nomatch h
  next newBindir _ =>
    refine checks_quiet_bind (@only_require .stop rfl id _) (by decide) fun _ => ?_
    refine keeps_bind_except (checks_wipe.mono fun r s hs => ?_)
    cases r with
    | ok _ => exact checks_of_quiet (only_copy newBindir) hs
    | error err => exact hs

theorem checks_rejoinLocked (binDirs : BinDirs) (req : Request) :
    Checks nodeId Sound (rejoinLocked binDirs req nodeId).run .checked := by
  have hl : (ExceptT.lift (ask .lockSupervisor) : Fallible Unit).run.Only (quiet ·) :=
    only_lift (only_perform rfl)
  have hp : (ExceptT.lift (ask .persistRetarget) : Fallible Unit).run.Only (quiet ·) :=
    only_lift (only_perform rfl)
  refine checks_quiet_bind hl (by decide) fun _ => ?_
  refine keeps_bind_except ((checks_runStandbyRebasebackup binDirs req).mono fun r s hs => ?_)
  cases r with
  | ok _ =>
    refine checks_quiet_bind hp hs fun _ => ?_
    exact hs
  | error err => exact hs

theorem checks_rejoinListed (binDirs : BinDirs) (req : Request) (record : PgUpgradeState) :
    Checks nodeId Sound (rejoinListed binDirs req nodeId record).run
      (Stage.next nodeId .fresh .readRecord record) := by
  by_cases hl : record.leavesStopped nodeId
  · have hn : Stage.next nodeId .fresh .readRecord record = .checked := if_pos hl
    have hr : rejoinRefusal record nodeId = none := if_pos hl
    rw [hn,rejoinListed,hr]
    refine checks_quiet_bind (@only_require .tryLockUpgrade rfl id _) (by decide) fun _ => ?_
    exact checks_rejoinLocked binDirs req
  · have hn : Stage.next nodeId .fresh .readRecord record = .fresh := if_neg hl
    have hr : ∃ why, rejoinRefusal record nodeId = some why := ⟨_,if_neg hl⟩
    obtain ⟨why,hw⟩ := hr
    rw [hn,rejoinListed,hw]
    exact fun h => nomatch h

theorem next_readRecord_ne_unchecked (record : PgUpgradeState) :
    Stage.next nodeId .fresh .readRecord record ≠ .unchecked := by
  change (if record.leavesStopped nodeId then Stage.checked else Stage.fresh) ≠ .unchecked
  split <;> decide

theorem checks_postgresUpgradeRejoin (req : Request) :
    Checks nodeId Sound (postgresUpgradeRejoin req nodeId).run .fresh := by
  have hp : (ExceptT.lift (ask .pgPaths) : Fallible (Option BinDirs)).run.Only (quiet ·) :=
    only_lift (only_perform rfl)
  refine checks_quiet_bind hp (by decide) fun paths => ?_
  cases paths with
  | none => exact fun h => nomatch h
  | some binDirs =>
    refine checks_quiet_bind (@only_require .postgresManager rfl id _) (by decide) fun _ => ?_
    refine keeps_bind_except (keeps_lift fun r record s' _ h => ?_)
    obtain ⟨y,-,hxy⟩ := Option.map_eq_some_iff.1 h
    cases hxy
    exact ⟨next_readRecord_ne_unchecked record,checks_rejoinListed binDirs req record⟩

end Discipline

section Record
variable {nodeId : NodeId}

structure Awaiting (nodeId : NodeId) (lineage : U64) (s : ClusterState) : Prop where
  listed : nodeId ∈ s.pgUpgrade.awaitingRejoin
  served : s.pgUpgrade.frozen = false
  lineage : s.lineage = some lineage

/-- Once served, the record lets a listed node go only by its own rejoin or removal. -/
theorem awaiting_upgrade {u : PgUpgradeState} (hl : nodeId ∈ u.awaitingRejoin)
    (hs : u.frozen = false) {cmd : ClusterCommand} (hc : releases nodeId cmd = false) :
    nodeId ∈ (u.apply cmd).1.awaitingRejoin ∧ (u.apply cmd).1.frozen = false := by
  have hne : u.awaitingRejoin ≠ [] := ne_nil_of_mem hl
  cases cmd with
  | pgUpgradeFreeze standbys =>
    rw [(PgUpgradeState.apply_freeze hne standbys).1]
    exact ⟨hl,hs⟩
  | pgUpgradeServe lineage => exact ⟨hl,rfl⟩
  | pgUpgradeRejoined id =>
    have hid : nodeId ≠ id := fun h => of_decide_eq_false hc h.symm
    exact ⟨mem_filter.2 ⟨hl,decide_eq_true hid⟩,hs⟩
  | pgUpgradeAbort =>
    rw [PgUpgradeState.apply_abort hs hne]
    exact ⟨hl,hs⟩
  | _ => exact ⟨hl,hs⟩

theorem awaiting_after {lineage : U64} {s : ClusterState} (h : Awaiting nodeId lineage s)
    {cmd : ClusterCommand} (hc : releases nodeId cmd = false) : Awaiting nodeId lineage (s.after cmd) := by
  have hu := awaiting_upgrade h.listed h.served hc
  cases cmd with
  | removeNode id =>
    have hid : nodeId ≠ id := fun h => of_decide_eq_false hc h.symm
    exact ⟨mem_filter.2 ⟨h.listed,decide_eq_true hid⟩,h.served,h.lineage⟩
  | setLineage systemIdentifier =>
    refine ⟨hu.1,hu.2,?_⟩
    change some (s.lineage.getD systemIdentifier) = some lineage
    rw [h.lineage,Option.getD_some]
  | pgUpgradeServe swapped =>
    refine ⟨hu.1,hu.2,?_⟩
    cases swapped with
    | none => exact h.lineage
    | some swapped => exact (if_neg (by simp [h.served])).trans h.lineage
  | _ => exact ⟨hu.1,hu.2,h.lineage⟩

theorem awaiting_applyEntry {lineage : U64} {s : ClusterState} (h : Awaiting nodeId lineage s)
    (index : U64) {cmd : ClusterCommand} (hc : releases nodeId cmd = false) :
    Awaiting nodeId lineage (s.applyEntry index cmd).1 := by
  rw [ClusterState.applyEntry]
  split_ifs with hr
  · exact h
  · have hi : Awaiting nodeId lineage {s with appliedIndex := some index} := {h with}
    rcases ClusterState.apply_cases {s with appliedIndex := some index} cmd with heq | heq
    · rw [heq]
      exact hi
    · rw [heq]
      exact awaiting_after hi hc

theorem awaiting_advance {lineage : U64} {s : ClusterState} (h : Awaiting nodeId lineage s)
    {entries : List (U64 × ClusterCommand)} (hen : ∀ e ∈ entries, releases nodeId e.2 = false) :
    Awaiting nodeId lineage (advance s entries) := by
  induction entries generalizing s with
  | nil => exact h
  | cons e entries ih =>
    have hr : ∀ e ∈ entries, releases nodeId e.2 = false :=
      fun e he => hen e (mem_cons_of_mem _ he)
    exact ih (awaiting_applyEntry h e.1 (hen e mem_cons_self)) hr

theorem authorized_iff {s : Standing} : authorized nodeId s ↔
    ∃ lineage, nodeId ∈ s.record.awaitingRejoin ∧ s.record.frozen = false ∧ s.lineage = some lineage ∧
      s.leader = false ∧ s.source = some lineage := by
  obtain ⟨record,lineage,leader,source⟩ := s
  cases lineage with
  | none => simp [authorized,servesClusterLineage]
  | some c =>
    cases source with
    | none => simp [authorized,servesClusterLineage]
    | some d =>
      simp [authorized,servesClusterLineage,PgUpgradeState.leavesStopped,and_assoc,@eq_comm _ c d]

end Record

section Runs
variable {nodeId : NodeId}

structure Good (nodeId : NodeId) (w : World) (h : Handler) : Prop where
  checks : Checks nodeId Sound h.program h.stage
  sound : h.stage ≠ .unchecked
  authorized : h.stage = .checked → authorized nodeId (w.standing h.req) = true

structure Inv (nodeId : NodeId) (n : Node) : Prop where
  safe : safe nodeId n
  handlers : ∀ h ∈ n.handlers, Good nodeId n.world h

theorem inv_outside {n : Node} (hn : Inv nodeId n) {w : World} (hc : w.cleared = n.world.cleared)
    (hk : ∀ h ∈ n.handlers, h.stage = .checked → authorized nodeId (n.world.standing h.req) →
      authorized nodeId (w.standing h.req)) : Inv nodeId {n with world := w} := by
  refine ⟨fun s hs => hn.safe s (hc ▸ hs),fun h hh => ?_⟩
  have hg := hn.handlers h hh
  exact ⟨hg.checks,hg.sound,fun hst => hk h hh hst (hg.authorized hst)⟩

theorem pending_of_checked {n : Node} {h : Handler} (hh : h ∈ n.handlers) (hs : h.stage = .checked) :
    n.pending := any_eq_true.2 ⟨h,hh,decide_eq_true hs⟩

theorem standing_effect (w : World) (req req' : Request) (o : Op) :
    (w.effect req o).standing req' = w.standing req' := by
  cases o <;> rfl

theorem cleared_effect {w : World} {req : Request} {o : Op} {s : Standing}
    (hs : s ∈ (w.effect req o).cleared) : s ∈ w.cleared ∨ o = .clearContents ∧ s = w.standing req := by
  cases o with
  | clearContents =>
    rcases mem_cons.1 hs with rfl | hs
    · exact .inr ⟨rfl,rfl⟩
    · exact .inl hs
  | _ => exact .inl hs

theorem answerHandler_eq_some {w w' : World} {h h' : Handler} {r : Reply}
    (heq : answerHandler nodeId w h r = some (w',h')) : ∃ o k x, h.program = .ask o k ∧
      w.reports o r ∧ r.answer o = some x ∧ w' = w.effect h.req o ∧ h'.req = h.req ∧
      h'.stage = h.stage.next nodeId o x ∧ h'.program = k x := by
  unfold answerHandler at heq
  split at heq
  next => cases heq
  next o k hp =>
    obtain ⟨hr,hm⟩ := Option.ite_none_right_eq_some.1 heq
    obtain ⟨x,hx,⟨⟩⟩ := Option.map_eq_some_iff.1 hm
    exact ⟨o,k,x,hp,hr,hx,rfl,rfl,rfl,rfl⟩

theorem stage_next_checked {s : Stage} {o : Op} {r : Reply} {x : Ans o} (hx : r.answer o = some x)
    (h : s.next nodeId o x = .checked) :
    s = .checked ∨ ∃ record, r = .record record ∧ record.leavesStopped nodeId := by
  cases o with
  | readRecord =>
    cases r with
    | record record =>
      obtain rfl : record = x := Option.some.inj hx
      by_cases hl : record.leavesStopped nodeId
      · exact .inr ⟨record,rfl,hl⟩
      · exact .inl ((if_neg hl).symm.trans h)
    | _ => cases hx
  | clearContents =>
    change (if s = .checked then Stage.cleared else .unchecked) = .checked at h
    split at h <;> cases h
  | _ => exact .inl h

/-- Only a checked handler clears the directory. -/
theorem checked_of_clear {s : Stage} {x : Ans .clearContents}
    (h : s.next nodeId .clearContents x ≠ .unchecked) : s = .checked := by
  by_contra hs
  exact h (if_neg hs)

theorem inv_reply {n n' : Node} {i : ℕ} {r : Reply} (hn : Inv nodeId n)
    (hm : meets nodeId n (.reply i r)) (hste : step nodeId n (.reply i r) = some n') :
    Inv nodeId n' := by
  obtain ⟨h,hge,hma⟩ := Option.bind_eq_some_iff.1 hste
  obtain ⟨⟨w',h'⟩,ha,rfl⟩ := Option.map_eq_some_iff.1 hma
  obtain ⟨o,k,x,hp,-,hx,rfl,hre,hst,hr⟩ := answerHandler_eq_some ha
  have hme : h ∈ n.handlers := mem_of_getElem? hge
  have hgo := hn.handlers h hme
  have hch := hgo.checks
  rw [hp] at hch
  have hne := hch r x (h.stage.next nodeId o x) trivial (by rw [stageAnswer,hx,Option.map_some])
  refine ⟨fun s hs => ?_,fun g hg => ?_⟩
  · rcases cleared_effect hs with hs | ⟨rfl,rfl⟩
    · exact hn.safe s hs
    · exact hgo.authorized (checked_of_clear hne.1)
  · rcases mem_or_eq_of_mem_set hg with hg | rfl
    · have ho := hn.handlers g hg
      exact ⟨ho.checks,ho.sound,by rw [standing_effect]; exact ho.authorized⟩
    · refine ⟨?_,?_,fun hc => ?_⟩
      · rw [hr,hst]
        exact hne.2
      · rw [hst]
        exact hne.1
      · rw [standing_effect,hre]
        rw [hst] at hc
        rcases stage_next_checked hx hc with hb | ⟨record,rfl,hl⟩
        · exact hgo.authorized hb
        · exact hm hl h hge

theorem inv_step (n : Node) (i : Input) (n' : Node) (hn : Inv nodeId n) (hm : meets nodeId n i)
    (hs : step nodeId n i = some n') : Inv nodeId n' := by
  cases i with
  | request req =>
    cases hs
    refine ⟨hn.safe,fun h hh => ?_⟩
    rcases mem_append.1 hh with hh | hh
    · exact hn.handlers h hh
    · cases mem_singleton.1 hh
      exact ⟨checks_postgresUpgradeRejoin req,(fun h => nomatch h),(fun h => nomatch h)⟩
  | reply i r => exact inv_reply hn hm hs
  | close i =>
    obtain ⟨h,-,rfl⟩ := Option.map_eq_some_iff.1 hs
    refine ⟨hn.safe,fun g hg => ?_⟩
    have hgo := hn.handlers g (mem_of_mem_eraseIdx hg)
    exact ⟨hgo.checks,hgo.sound,hgo.authorized⟩
  | apply entries =>
    cases hs
    refine inv_outside hn rfl fun h hh hst ha => ?_
    obtain ⟨lineage,hli,hse,hl,hle,hso⟩ := authorized_iff.1 ha
    have haw := awaiting_advance ⟨hli,hse,hl⟩ (hm (pending_of_checked hh hst))
    exact authorized_iff.2 ⟨lineage,haw.listed,haw.served,haw.lineage,hle,hso⟩
  | lead leader =>
    cases hs
    refine inv_outside hn rfl fun h hh hst ha => ?_
    obtain ⟨lineage,hli,hse,hl,-,hso⟩ := authorized_iff.1 ha
    have hle := hm (pending_of_checked hh hst)
    exact authorized_iff.2 ⟨lineage,hli,hse,hl,hle,hso⟩
  | serve host port lineage =>
    cases hs
    refine inv_outside hn rfl fun h hh hst ha => ?_
    have hsa : World.standing {n.world with source := fun a p =>
        if a = host ∧ p = port then lineage else n.world.source a p} h.req = n.world.standing h.req := by
      unfold World.standing
      congr 1
      dsimp only
      split_ifs with hna
      · rw [hm h hh hst hna.1 hna.2,hna.1,hna.2]
      · rfl
    rw [hsa]
    exact ha
  | upgradeLock held =>
    obtain ⟨-,⟨⟩⟩ := Option.ite_none_left_eq_some.1 hs
    exact inv_outside hn rfl fun h _ _ ha => ha
  | supervisorLock held =>
    obtain ⟨-,⟨⟩⟩ := Option.ite_none_left_eq_some.1 hs
    exact inv_outside hn rfl fun h _ _ ha => ha

/-- In every run that meets the condition the directory is cleared only for an authorised copy. -/
theorem wipe_only_authorized (nodeId : NodeId) (state : ClusterState) (leader : Bool)
    (source : Text → U16 → Option U64) {is : List Input} {n : Node}
    (hmeets : Guarded (step nodeId) (meets nodeId) (Node.start state leader source) is)
    (hrun : run (step nodeId) (Node.start state leader source) is = some n) : safe nodeId n := by
  have hs : Inv nodeId (Node.start state leader source) :=
    ⟨fun _ h => absurd h not_mem_nil,fun _ h => absurd h not_mem_nil⟩
  exact (run_invariant_guarded inv_step hs hmeets hrun).safe

def upgraded : ClusterState :=
  {pgUpgrade := ⟨false,[2,3]⟩, lineage := some 9, featureLevel := 1}

def rejoin : Request := ⟨18,"10.0.0.1".toList,5432,"postgres".toList⟩

def sources (lineage : U64) : Text → U16 → Option U64 := fun _ _ => some lineage

def admitted (record : PgUpgradeState) : List Input :=
  [.request rejoin,.reply 0 (.paths (some [(18,"bin18".toList)])),.reply 0 (.flag true),
    .reply 0 (.record record)]
def probed : List Input :=
  [.reply 0 (.flag true),.reply 0 .done,.reply 0 (.text (some "18.1\n".toList))]
def wiped : List Input := [.reply 0 (.flag true),.reply 0 (.flag true),.reply 0 (.flag true)]

theorem wipe_only_authorized_rejoined :
    let is := admitted ⟨false,[2,3]⟩++.apply [(5,.pgUpgradeRejoined 3)]::probed++wiped
    (run (step 2) (Node.start upgraded false (sources 9)) is).any (·.world.cleared.length = 1) ∧
      ∀ n, run (step 2) (Node.start upgraded false (sources 9)) is = some n → safe 2 n :=
  ⟨by decide +kernel,fun _ hr => wipe_only_authorized 2 upgraded false (sources 9) (by decide +kernel) hr⟩

/-- While the freeze is on; on the leader; for a copy of another lineage; and after the check, when the node
is taken off the record, when it comes to lead and when the source's data is replaced. -/
def ungated : List (Node × List Input) :=
  [(Node.start {upgraded with pgUpgrade := ⟨true,[2,3]⟩} false (sources 9),admitted ⟨true,[2,3]⟩++probed++wiped),
    (Node.start upgraded true (sources 9),admitted ⟨false,[2,3]⟩++probed++wiped),
    (Node.start upgraded false (sources 4),admitted ⟨false,[2,3]⟩++probed++wiped),
    (Node.start upgraded false (sources 9),
      admitted ⟨false,[2,3]⟩++.apply [(5,.pgUpgradeRejoined 2)]::probed++wiped),
    (Node.start upgraded false (sources 9),admitted ⟨false,[2,3]⟩++probed++.lead true::wiped),
    (Node.start upgraded false (sources 9),
      admitted ⟨false,[2,3]⟩++probed++.serve "10.0.0.1".toList 5432 (some 4)::wiped)]

theorem wipe_unauthorized : ungated.Forall fun c => ∃ n, run (step 2) c.1 c.2 = some n ∧ ¬safe 2 n := by
  have ha : ungated.all (fun c => (run (step 2) c.1 c.2).any fun n =>
      n.world.cleared.any fun s => !authorized 2 s) := by decide +kernel
  rw [forall_iff_forall_mem]
  intro c hc
  obtain ⟨n,hr,hn⟩ := (Option.any_eq_true _ _).1 (all_eq_true.1 ha c hc)
  obtain ⟨s,hm,hs⟩ := any_eq_true.1 hn
  refine ⟨n,hr,fun hsa => ?_⟩
  rw [hsa s hm] at hs
  cases hs

end Runs
end Rejoin
end PgBattery
