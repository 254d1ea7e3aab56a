import PgBattery.Interaction
import PgBattery.Rewind

/-! How a node's supervisor follows a leader: the probes, what is decided on their answers, and the
programs that re-point, rewind or rebuild the data directory. Every wait of the source is a question to
the environment. -/
namespace PgBattery
namespace Following
open SqlReply Rewind Interaction List

section Decisions

inductive PostmasterState
  | running
  | notRunning
  | exited (code : Option ℤ)
  deriving DecidableEq

inductive TimelineCheck
  | agree
  | mismatch
  | unknown
  | foreign
  deriving DecidableEq

inductive LineageTerm
  | unenforced
  | committed (lineage : Option U64)
  deriving DecidableEq

structure FollowTerms where
  rewindBudget : RewindBudget
  lineage : LineageTerm
  deriving DecidableEq

def servesClusterLineage (term : LineageTerm) (source : Option U64) : Bool :=
  match term with
  | .unenforced => true
  | .committed committed =>
    match committed,source with
    | some c,some s => c = s
    | _,_ => false

/-- `s.parse::<u64>()`. -/
def parseU64 (s : Text) : Option U64 :=
  let digits := match s with
    | '+' :: rest => rest
    | _ => s
  if digits = [] then none
  else do
    let n ← digits.foldlM (fun n c => if '0' ≤ c ∧ c ≤ '9' then some (n*10+(c.toNat-48)) else none) 0
    if h : n < 18446744073709551616 then some ⟨n,h⟩ else none

theorem foldlM_digits {s : Text} (h : ∀ c ∈ s, c.isDigit) (n : ℕ) :
    s.foldlM (fun n c => if '0' ≤ c ∧ c ≤ '9' then some (n*10+(c.toNat-48)) else none) n =
      some (Nat.ofDigitChars 10 s n) := by
  induction s generalizing n with
  | nil => rfl
  | cons c s ih =>
    have hdi : '0' ≤ c ∧ c ≤ '9' := by
      have hc := h c mem_cons_self
      simp only [Char.isDigit,ge_iff_le,Bool.and_eq_true,decide_eq_true_eq] at hc
      exact hc
    have hv : 10*n+(c.toNat- '0'.toNat) = n*10+(c.toNat-48) := by
      rw [Nat.mul_comm]
      rfl
    rw [foldlM_cons,if_pos hdi,Nat.ofDigitChars_cons,hv]
    exact ih (fun d hd => h d (mem_cons_of_mem c hd)) _

theorem parseU64_digits {s : Text} (h : ∀ c ∈ s, c.isDigit) {n : U64}
    (hn : parseU64 s = some n) : n.val = Nat.ofDigitChars 10 s 0 := by
  have hs : ∀ rest, s ≠ '+' ::rest := by
    rintro rest rfl
    have hp := h '+' mem_cons_self
    exact absurd hp (by decide)
  unfold parseU64 at hn
  split at hn
  next rest => exact absurd rfl (hs rest)
  next =>
    dsimp only at hn
    split at hn
    · cases hn
    · rw [foldlM_digits h] at hn
      obtain ⟨hb,hv⟩ := Option.dite_none_right_eq_some.1 hn
      cases hv
      rfl

def parseLeaderProbe (reply : Text) : Option (U64 × U64) := do
  let (walfile,lineage) ← splitOnce '|' (trim reply)
  let timeline ← if walfile.length < 8 then none else fromStrRadix (walfile.take 8)
  let lineage ← parseU64 (trim lineage)
  pure (timeline,lineage)

inductive FormerPrimaryAction
  | rewind
  | defer
  deriving DecidableEq

def formerPrimaryAction : TimelineCheck → FormerPrimaryAction
  | .agree | .mismatch => .rewind
  | .unknown | .foreign => .defer

inductive StandbyAction
  | noOp
  | defer
  | repoint
  | rewind
  | reprovision
  deriving DecidableEq

def streamingGapAction (localAhead canContinue : Option Bool) : StandbyAction :=
  match localAhead,canContinue with
  | some true,_ => .rewind
  | some false,some false => .reprovision
  | some false,_ => .defer
  | none,_ => .defer

def standbyActionForMismatch : Option Bool → StandbyAction
  | some true => .rewind
  | some false => .repoint
  | none => .defer

end Decisions

variable {α β : Type}

section Questions

inductive Query
  | reportableLsn
  | lastReplayLsn
  | streamingCount
  | laterSegment (needed : Text)
  deriving DecidableEq

inductive PeerQuery
  | leaderProbe
  | lineage
  | currentWalLsn
  | walfileRetained (replay : Text)
  deriving DecidableEq

inductive Attempt
  | spawnFailed (error : Text)
  | unwaitable (error : Text)
  | overran
  | exited (success : Bool) (stderr : Text)
  deriving DecidableEq

inductive Start
  | ready
  | refused (detail : Text)
  | failed (detail : Text)
  deriving DecidableEq

inductive Act
  | stop
  | reloadConfig
  | configureStandby
  | ensureStandbySignal
  | clearDirContents
  | pgBasebackup
  | waitForRewindSource
  | prepareRestore
  | createDataDir
  | extractBackup
  | removeStaged
  | removeDataDir
  | renameStagedBack
  | initDb
  deriving DecidableEq

inductive Look
  | pgVersion
  | standbySignal
  | pgdataExists
  | pgdataLooksValid
  | peerListsThisNode
  | leadsRaft
  deriving DecidableEq

/-- What the supervisor asks for; `within o` asks for `o` in what is left of the rewind's budget. -/
inductive Op
  | postmasterState
  | isInRecovery
  | standbyConfigWouldChange
  | executeSql (q : Query)
  | queryPeer (q : PeerQuery)
  | localTimeline
  | start
  | act (a : Act)
  | pgRewind (dryRun : Bool)
  | retryDelay
  | look (q : Look)
  | findPreRestoreStaging
  | stageExistingDataDir
  | within (o : Op)
  deriving DecidableEq

/-- The answer to a question. What can fail answers with the failure's text. -/
def Ans : Op → Type
  | .postmasterState => Except Text PostmasterState
  | .isInRecovery => Except Text Bool
  | .standbyConfigWouldChange => Bool
  | .executeSql _ | .queryPeer _ => Option Text
  | .localTimeline => Option U64
  | .start => Start
  | .act _ => Except Text Unit
  | .pgRewind _ => Attempt
  | .retryDelay => Unit
  | .look _ => Bool
  | .findPreRestoreStaging | .stageExistingDataDir => Except Text Bool
  | .within o => Option (Ans o)

abbrev Asking := Program Op Ans
abbrev Fallible := ExceptT Error Asking

/-- `tokio::time::timeout`: the program, unless the time runs out while it waits for an answer. -/
def timeout {α : Type} : Asking α → Asking (Option α)
  | .pure a => .pure (some a)
  | .ask o k => .ask (.within o) fun (x : Option (Ans o)) => x.elim (.pure none) fun x => timeout (k x)

def ask (o : Op) : Asking (Ans o) := Program.perform o

def caught {α : Type} (p : Fallible α) : Fallible (Except Error α) := ExceptT.lift p.run

inductive Reply
  | state (r : Except Text PostmasterState)
  | recovery (r : Except Text Bool)
  | flag (b : Bool)
  | text (t : Option Text)
  | timeline (t : Option U64)
  | started (s : Start)
  | done (r : Except Text Unit)
  | ran (a : Attempt)
  | waited
  | found (r : Except Text Bool)
  | elapsed

def Reply.answer : (o : Op) → Reply → Option (Ans o)
  | .postmasterState, .state r => some r
  | .isInRecovery, .recovery r => some r
  | .standbyConfigWouldChange, .flag b => some b
  | .executeSql _, .text t => some t
  | .queryPeer _, .text t => some t
  | .localTimeline, .timeline t => some t
  | .start, .started s => some s
  | .act _, .done r => some r
  | .pgRewind _, .ran a => some a
  | .retryDelay, .waited => some ()
  | .look _, .flag b => some b
  | .findPreRestoreStaging, .found r => some r
  | .stageExistingDataDir, .found r => some r
  | .within _, .elapsed => some none
  | .within o, reply => (reply.answer o).map some
  | _, _ => none

theorem timeout_bind (p : Asking α) (f : α → Asking β) :
    timeout (p >>= f) = timeout p >>= fun r => r.elim (pure none) fun a => timeout (f a) := by
  induction p with
  | pure a => rfl
  | ask o k ih =>
    have hk : (fun x : Option (Ans o) => x.elim (.pure none) fun x => timeout (k x >>= f)) =
        fun x => (x.elim (.pure none) fun x => timeout (k x)) >>= fun r =>
          r.elim (pure none) fun a => timeout (f a) := by
      funext x
      cases x with
      | none => rfl
      | some x => exact ih x
    exact congrArg (fun k' : Ans (.within o) → Asking (Option β) => (.ask (.within o) k' : Asking _)) hk

theorem only_timeout {kind : Op → Prop} (hk : ∀ o, kind o → kind (.within o)) {p : Asking α}
    (hp : p.Only kind) : (timeout p).Only kind := by
  induction p with
  | pure a => exact trivial
  | ask o k ih =>
    change kind (.within o) ∧ ∀ x : Option (Ans o),
      Program.Only kind (x.elim (.pure none) fun x => timeout (k x))
    refine ⟨hk o hp.1,fun x => ?_⟩
    cases x with
    | none => exact trivial
    | some x => exact ih x (hp.2 x)

def act (a : Act) : Fallible Unit := do
  match (← ask (.act a) : Except Text Unit) with
  | .ok () => pure ()
  | .error detail => throw (.postgres detail)

def stop : Fallible Unit := act .stop
def configureStandby : Fallible Unit := act .configureStandby
def ensureStandbySignal : Fallible Unit := act .ensureStandbySignal

def start : Fallible Unit := do
  match (← ask .start : Start) with
  | .ready => pure ()
  | .refused detail => throw (.postgresRefusedToOpen detail)
  | .failed detail => throw (.postgres detail)

def isInRecovery (context : Text) : Fallible Bool := do
  match (← ask .isInRecovery : Except Text Bool) with
  | .ok b => pure b
  | .error e => throw (.postgres (context++e))

end Questions

section Probes

def executeSql (q : Query) : Asking (Option Text) := ask (.executeSql q)

def queryPeer (q : PeerQuery) : Asking (Option Text) := do
  let reply : Option Text ← ask (.queryPeer q)
  return reply.map trim

def peerLineage : Asking (Option U64) := do return (← queryPeer .lineage).bind parseU64

def probeLeader : Asking (Option (U64 × U64)) := do
  return (← queryPeer .leaderProbe).bind parseLeaderProbe

def getRemoteLsn : Asking (Option U64) := do
  return (← queryPeer .currentWalLsn).bind parseLsnLocal

def localAheadOfLeader : Asking (Option Bool) := do
  match (← executeSql .lastReplayLsn).bind fun s => parseLsnLocal (trim s) with
  | none => return none
  | some here => return (← getRemoteLsn).map fun remote => remote < here

def streamingActive : Asking Bool := do
  return (← executeSql .streamingCount).any fun s => trim s = "1".toList

def checkTimelineState (lineage : LineageTerm) : Asking TimelineCheck := do
  match (← ask .localTimeline : Option U64) with
  | none => return .unknown
  | some here =>
    match ← probeLeader with
    | none => return .unknown
    | some (remote,remoteLineage) =>
      if !servesClusterLineage lineage (some remoteLineage) then return .foreign
      else if here = remote then return .agree
      else return .mismatch

def laterSegments (reply : Option Text) : Option Bool :=
  match reply.map trim with
  | some ['t'] => some true
  | some ['f'] => some false
  | _ => none

def replayCanContinue : Asking (Option Bool) := do
  match (← executeSql .lastReplayLsn).map trim with
  | none => return none
  | some replay =>
    if parseLsnLocal replay = none then return none
    else
      match (← queryPeer (.walfileRetained replay)).bind (splitOnce '|') with
      | none => return none
      | some (needed,retained) =>
        if retained = "t".toList then return some true
        else return laterSegments (← executeSql (.laterSegment needed))

def classifyStreamingGap : Asking StandbyAction := do
  let localAhead ← localAheadOfLeader
  let canContinue ← if localAhead = some false then replayCanContinue else pure none
  return streamingGapAction localAhead canContinue

def decideStandbyAction (lineage : LineageTerm) : Asking StandbyAction := do
  let configChanged : Bool ← ask .standbyConfigWouldChange
  if configChanged then
    match ← checkTimelineState lineage with
    | .agree => return .repoint
    | .mismatch => return standbyActionForMismatch (← localAheadOfLeader)
    | .unknown | .foreign => return .defer
  else if ← streamingActive then return .noOp
  else
    match ← checkTimelineState lineage with
    | .mismatch => return .rewind
    | .unknown | .foreign => return .defer
    | .agree => classifyStreamingGap

def captureLsnForRewindGate : Asking (Option U64) := do
  return (← executeSql .reportableLsn).bind fun s => parseLsnLocal (trim s)

end Probes

section Runs

/-- `check_rewind_discard` once the local end has been looked up. -/
def discardVerdict (budget : RewindBudget) : Option U64 → Option RewindPlan → Except Error Unit
  | none, _ =>
    .error (rewindUntouched ("local WAL position unavailable, refusing pg_rewind (cannot verify it " ++
      "will not discard acked WAL)").toList)
  | some _, none =>
    .error (rewindUntouched ("pg_rewind's dry run named no fork, refusing pg_rewind (cannot " ++
      "measure what it would discard)").toList)
  | some _, some .nothingToDiscard => .ok ()
  | some localLsn, some (.diverged fork) =>
    match rewindDivergenceDecision localLsn fork budget with
    | .safe | .withinTolerance _ => .ok ()
    | .refuse divergenceBytes =>
      .error (.rewindDataLossRisk localLsn fork divergenceBytes
        (match budget with | .bytes limit => limit | .unbounded => U64.max))

def checkRewindDiscard (preStopLocalLsn : Option U64) (plan : Option RewindPlan)
    (budget : RewindBudget) : Fallible Unit := do
  let localLsn ← match preStopLocalLsn with
    | some lsn => pure (some lsn)
    | none => captureLsnForRewindGate
  ExceptT.mk (pure (discardVerdict budget localLsn plan))

def runPgRewindAttempt (dryRun : Bool) : Fallible (Bool × Text) := do
  match (← ask (.pgRewind dryRun) : Attempt) with
  | .spawnFailed e => throw (rewindUntouched ("could not spawn pg_rewind: ".toList++e))
  | .unwaitable e => throw (rewindCompromised ("could not wait on pg_rewind: ".toList++e))
  | .overran => throw (rewindCompromised "pg_rewind exceeded 300s budget".toList)
  | .exited success stderr => return (success,stderr)

def pgRewindMaxRetries : ℕ := 10

/-- The real runs, with the given number of them left. -/
def rewindRuns (sourceAddr : Text) : ℕ → Fallible Unit
  | 0 => throw (rewindCompromised "pg_rewind failed after all retries".toList)
  | left+1 => do
    let (success,stderr) ← runPgRewindAttempt false
    if success then ensureStandbySignal
    else if 0 < left ∧ classifyPgRewindFailure stderr = .retryable then
      let _ : Unit ← ask .retryDelay
      rewindRuns sourceAddr left
    else throw (rewindFailureError stderr sourceAddr false)

def waitForRewindSource : Fallible Unit := do
  match (← ask (.act .waitForRewindSource) : Except Text Unit) with
  | .ok () => pure ()
  | .error detail => throw (rewindUntouched detail)

def rewindWithinBudget (sourceAddr : Text) (preStopLocalLsn : Option U64) (budget : RewindBudget) :
    Fallible Unit := do
  waitForRewindSource
  let (success,output) ← runPgRewindAttempt true
  if success then
    checkRewindDiscard preStopLocalLsn (parseRewindPlan output) budget
    rewindRuns sourceAddr pgRewindMaxRetries
  else throw (rewindFailureError output sourceAddr true)

def runPgRewind (sourceAddr : Text) (preStopLocalLsn : Option U64) (budget : RewindBudget) :
    Fallible Unit := ExceptT.mk do
  match ← timeout (rewindWithinBudget sourceAddr preStopLocalLsn budget).run with
  | some r => return r
  | none => return .error (rewindCompromised "pg_rewind exceeded 300s budget".toList)

end Runs

section Demote

def reprovisionFrom (sourceAddr : Text) (lineage : LineageTerm) : Fallible Unit := do
  let sourceLineage ← peerLineage
  if !servesClusterLineage lineage sourceLineage then
    throw (.postgres ("refusing to discard the data directory for a copy of ".toList++sourceAddr))
  else
    stop
    act .clearDirContents
    match ← caught (act .pgBasebackup) with
    | .error e =>
      -- the debris goes; a failure to remove it is only logged
      let _ ← caught (act .clearDirContents)
      throw e
    | .ok () =>
      ensureStandbySignal
      configureStandby
      start

inductive RewindOutcome
  | rewound
  | reprovisioned
  deriving DecidableEq

def rewindOntoLeader (newLeaderAddr : Text) (preStopLsn : Option U64) (terms : FollowTerms) :
    Fallible RewindOutcome := do
  match ← caught (runPgRewind newLeaderAddr preStopLsn terms.rewindBudget) with
  | .ok () =>
    ensureStandbySignal
    return .rewound
  | .error e =>
    match rewindRecovery e with
    | .restartInPlace =>
      ensureStandbySignal
      configureStandby
      match ← caught start with
      | .error (.postgresRefusedToOpen _) =>
        reprovisionFrom newLeaderAddr terms.lineage
        return .reprovisioned
      | _ => throw e
    | .reprovision =>
      reprovisionFrom newLeaderAddr terms.lineage
      return .reprovisioned

def repointStandby (newLeaderAddr : Text) (terms : FollowTerms) : Fallible Unit := do
  match ← decideStandbyAction terms.lineage with
  | .noOp | .defer => pure ()
  | .reprovision => reprovisionFrom newLeaderAddr terms.lineage
  | .repoint =>
    configureStandby
    act .reloadConfig
  | .rewind =>
    let preStopLsn ← captureLsnForRewindGate
    stop
    match ← rewindOntoLeader newLeaderAddr preStopLsn terms with
    | .reprovisioned => pure ()
    | .rewound =>
      configureStandby
      start

def restartOrRepairStandby (newLeaderAddr : Text) (lineage : LineageTerm) : Fallible Unit := do
  configureStandby
  match ← caught start with
  | .ok () => pure ()
  | .error (.postgresRefusedToOpen _) => reprovisionFrom newLeaderAddr lineage
  | .error e => throw e

def demotePrimary (newLeaderAddr : Text) (terms : FollowTerms) : Fallible Unit := do
  match formerPrimaryAction (← checkTimelineState terms.lineage) with
  | .defer => pure ()
  | .rewind =>
    let preStopLsn ← captureLsnForRewindGate
    stop
    match ← caught (runPgRewind newLeaderAddr preStopLsn terms.rewindBudget) with
    | .error e =>
      match rewindRecovery e with
      | .restartInPlace => throw e
      | .reprovision => reprovisionFrom newLeaderAddr terms.lineage
    | .ok () =>
      ensureStandbySignal
      configureStandby
      start
      if ← isInRecovery "Failed to verify recovery state after demotion restart: ".toList then pure ()
      else
        throw (.postgres ("Demotion failed: PostgreSQL did not enter recovery mode. Timeline " ++
          "divergence may require manual intervention (pg_basebackup).").toList)

def demote (newLeaderAddr : Text) (terms : FollowTerms) : Fallible Unit := do
  match (← ask .postmasterState : Except Text PostmasterState) with
  | .error e => throw (.postgres e)
  | .ok .notRunning => restartOrRepairStandby newLeaderAddr terms.lineage
  | .ok _ =>
    if ← isInRecovery "Failed to probe recovery state before demotion: ".toList then
      repointStandby newLeaderAddr terms
    else demotePrimary newLeaderAddr terms

end Demote

section Asked

theorem only_ask {kind : Op → Prop} {o : Op} (h : kind o) : (ask o).Only kind := Program.only_perform h

theorem only_act {kind : Op → Prop} {a : Act} (h : kind (.act a)) : (act a).run.Only kind := by
  refine Program.only_bind_except (Program.only_lift (only_ask h)) fun (r : Except Text Unit) => ?_
  cases r <;> exact trivial

theorem only_caught {kind : Op → Prop} {p : Fallible α} (h : p.run.Only kind) :
    (caught p).run.Only kind := Program.only_lift h

theorem only_start {kind : Op → Prop} (h : kind .start) : start.run.Only kind := by
  refine Program.only_bind_except (Program.only_lift (only_ask h)) fun (r : Start) => ?_
  cases r <;> exact trivial

theorem only_queryPeer {kind : Op → Prop} {q : PeerQuery} (h : kind (.queryPeer q)) :
    (queryPeer q).Only kind := Program.only_bind (only_ask h) fun _ => trivial

theorem only_reprovisionFrom {kind : Op → Prop} (hp : ∀ q, kind (.queryPeer q))
    (ha : ∀ a, kind (.act a)) (hs : kind .start) (sourceAddr : Text) (lineage : LineageTerm) :
    (reprovisionFrom sourceAddr lineage).run.Only kind := by
  have hl : peerLineage.Only kind :=
    Program.only_bind (only_queryPeer (hp _)) fun _ => trivial
  refine Program.only_bind_except (Program.only_lift hl) fun sourceLineage => ?_
  split
  · exact trivial
  · refine Program.only_bind_except (only_act (ha _)) fun _ => ?_
    refine Program.only_bind_except (only_act (ha _)) fun _ => ?_
    refine Program.only_bind_except (only_caught (only_act (ha _))) fun r => ?_
    cases r with
    | error e => exact Program.only_bind_except (only_caught (only_act (ha _))) fun _ => trivial
    | ok _ =>
      refine Program.only_bind_except (only_act (ha _)) fun _ => ?_
      exact Program.only_bind_except (only_act (ha _)) fun _ => only_start hs

theorem only_runPgRewindAttempt {kind : Op → Prop} {dryRun : Bool} (h : kind (.pgRewind dryRun)) :
    (runPgRewindAttempt dryRun).run.Only kind := by
  refine Program.only_bind_except (Program.only_lift (only_ask h)) fun (r : Attempt) => ?_
  cases r <;> exact trivial

theorem only_rewindRuns {kind : Op → Prop} (hr : kind (.pgRewind false)) (hd : kind .retryDelay)
    (hs : kind (.act .ensureStandbySignal)) (sourceAddr : Text) (left : ℕ) :
    (rewindRuns sourceAddr left).run.Only kind := by
  induction left with
  | zero => exact trivial
  | succ left ih =>
    refine Program.only_bind_except (only_runPgRewindAttempt hr) fun r => ?_
    obtain ⟨success,stderr⟩ := r
    dsimp only
    split
    · exact only_act hs
    · split
      · exact Program.only_bind_except (Program.only_lift (only_ask hd)) fun _ => ih
      · exact trivial

theorem only_checkTimelineState {kind : Op → Prop} (hl : kind .localTimeline)
    (hp : ∀ q, kind (.queryPeer q)) (lineage : LineageTerm) :
    (checkTimelineState lineage).Only kind := by
  refine Program.only_bind (only_ask hl) fun (r : Option U64) => ?_
  cases r with
  | none => exact trivial
  | some here =>
    refine Program.only_bind (Program.only_bind (only_queryPeer (hp _)) fun _ => trivial) fun r => ?_
    rcases r with _ | ⟨remote,remoteLineage⟩
    · exact trivial
    · dsimp only
      split
      · exact trivial
      · split <;> exact trivial

theorem only_localAheadOfLeader {kind : Op → Prop} (hs : kind (.executeSql .lastReplayLsn))
    (hp : ∀ q, kind (.queryPeer q)) : localAheadOfLeader.Only kind := by
  refine Program.only_bind (only_ask hs) fun (r : Option Text) => ?_
  split
  · exact trivial
  · refine Program.only_bind ?_ fun _ => trivial
    exact Program.only_bind (only_queryPeer (hp _)) fun _ => trivial

theorem only_replayCanContinue {kind : Op → Prop} (hs : ∀ q, kind (.executeSql q))
    (hp : ∀ q, kind (.queryPeer q)) : replayCanContinue.Only kind := by
  refine Program.only_bind (only_ask (hs _)) fun (r : Option Text) => ?_
  split
  · exact trivial
  · split
    · exact trivial
    · refine Program.only_bind (only_queryPeer (hp _)) fun r => ?_
      split
      · exact trivial
      · split
        · exact trivial
        · exact Program.only_bind (only_ask (hs _)) fun _ => trivial

theorem only_decideStandbyAction {kind : Op → Prop} (hs : ∀ q, kind (.executeSql q))
    (hp : ∀ q, kind (.queryPeer q)) (hl : kind .localTimeline)
    (hc : kind .standbyConfigWouldChange) (lineage : LineageTerm) :
    (decideStandbyAction lineage).Only kind := by
  have ht := only_checkTimelineState hl hp lineage
  have ha := only_localAheadOfLeader (hs _) hp
  refine Program.only_bind (only_ask hc) fun (configChanged : Bool) => ?_
  cases configChanged with
  | true =>
    refine Program.only_bind ht fun timeline => ?_
    cases timeline with
    | mismatch => exact Program.only_bind ha fun _ => trivial
    | _ => exact trivial
  | false =>
    refine Program.only_bind (Program.only_bind (only_ask (hs _)) fun _ => trivial) fun streaming => ?_
    cases streaming with
    | true => exact trivial
    | false =>
      refine Program.only_bind ht fun timeline => ?_
      cases timeline with
      | agree =>
        refine Program.only_bind ha fun localAhead => ?_
        dsimp only
        split
        · exact Program.only_bind (only_replayCanContinue hs hp) fun _ => trivial
        · exact trivial
      | _ => exact trivial

theorem only_captureLsnForRewindGate {kind : Op → Prop} (h : kind (.executeSql .reportableLsn)) :
    captureLsnForRewindGate.Only kind := Program.only_bind (only_ask h) fun _ => trivial

theorem only_checkRewindDiscard {kind : Op → Prop} (h : kind (.executeSql .reportableLsn))
    (read : Option U64) (plan : Option RewindPlan) (budget : RewindBudget) :
    (checkRewindDiscard read plan budget).run.Only kind := by
  cases read with
  | some l => exact trivial
  | none =>
    exact Program.only_bind_except (Program.only_lift (only_captureLsnForRewindGate h)) fun _ => trivial

theorem only_waitForRewindSource {kind : Op → Prop} (h : kind (.act .waitForRewindSource)) :
    waitForRewindSource.run.Only kind := by
  refine Program.only_bind_except (Program.only_lift (only_ask h)) fun (r : Except Text Unit) => ?_
  cases r <;> exact trivial

theorem only_isInRecovery {kind : Op → Prop} (h : kind .isInRecovery) (context : Text) :
    (isInRecovery context).run.Only kind := by
  refine Program.only_bind_except (Program.only_lift (only_ask h)) fun (r : Except Text Bool) => ?_
  cases r <;> exact trivial

section Timed
variable {W E : Type} {answer : W → (o : Op) → E → Option (Ans o × W)} {guard : W → Op → E → Prop}
  {inv : W → Prop}

theorem keeps_caught {p : Fallible α} {f : Except Error α → Fallible β}
    {post : Except Error β → W → Prop} {w : W}
    (h : p.run.Keeps answer guard inv (fun r w => (f r).run.Keeps answer guard inv post w) w) :
    (caught p >>= f).run.Keeps answer guard inv post w :=
  Program.keeps_bind_except (Program.keeps_lift h)

theorem keeps_timeout_ask {o : Op} {post : Option (Ans o) → W → Prop} {w : W}
    (h : ∀ e (x : Option (Ans o)) w', guard w (.within o) e → answer w (.within o) e = some (x,w') →
      inv w' ∧ post x w') : (timeout (ask o)).Keeps answer guard inv post w := by
  intro e (x : Option (Ans o)) w' hg he
  obtain ⟨hi,hp⟩ := h e x w' hg he
  refine ⟨hi,?_⟩
  cases x with
  | none => exact hp
  | some x => exact hp

theorem keeps_timeout_lift {p : Asking α} {post : Option (Except Error α) → W → Prop} {w : W}
    (h : (timeout p).Keeps answer guard inv (fun r w => post (r.map .ok) w) w) :
    (timeout (ExceptT.lift p : Fallible α).run).Keeps answer guard inv post w := by
  have hl : (ExceptT.lift p : Fallible α).run = p >>= fun a => pure (.ok a) := rfl
  rw [hl,timeout_bind]
  refine Program.keeps_bind (h.mono fun r w hr => ?_)
  cases r with
  | none => exact hr
  | some a => exact hr

theorem keeps_timeout_bind {p : Fallible α} {f : α → Fallible β}
    {post : Option (Except Error β) → W → Prop} {w : W}
    (h : (timeout p.run).Keeps answer guard inv (fun r w => match r with
      | some (.ok a) => (timeout (f a).run).Keeps answer guard inv post w
      | some (.error e) => post (some (.error e)) w
      | none => post none w) w) : (timeout (p >>= f).run).Keeps answer guard inv post w := by
  have hb : (p >>= f).run = p.run >>= ExceptT.bindCont f := rfl
  rw [hb,timeout_bind]
  refine Program.keeps_bind (h.mono fun r w hr => ?_)
  rcases r with _ | e | a
  · exact hr
  · exact hr
  · exact hr

end Timed

variable {reply : Reply}

theorem reply_of_answer_start {x : Start} (h : reply.answer .start = some x) :
    reply = .started x := by
  cases reply <;> cases h
  rfl

theorem reply_of_answer_act {a : Act} {x : Except Text Unit} (h : reply.answer (.act a) = some x) :
    reply = .done x := by
  cases reply <;> cases h
  rfl

theorem reply_of_answer_look {q : Look} {x : Bool} (h : reply.answer (.look q) = some x) :
    reply = .flag x := by
  cases reply <;> cases h
  rfl

theorem reply_of_answer_findPreRestoreStaging {x : Except Text Bool}
    (h : reply.answer .findPreRestoreStaging = some x) : reply = .found x := by
  cases reply <;> cases h
  rfl

theorem reply_of_answer_queryPeer {q : PeerQuery} {x : Option Text}
    (h : reply.answer (.queryPeer q) = some x) : reply = .text x := by
  cases reply <;> cases h
  rfl

theorem reply_of_answer_executeSql {q : Query} {x : Option Text}
    (h : reply.answer (.executeSql q) = some x) : reply = .text x := by
  cases reply <;> cases h
  rfl

theorem reply_of_answer_pgRewind {b : Bool} {x : Attempt} (h : reply.answer (.pgRewind b) = some x)
    : reply = .ran x := by
  cases reply <;> cases h
  rfl

theorem reply_of_answer_within {o : Op} {x : Option (Ans o)} (h : reply.answer (.within o) = some x)
    : reply = .elapsed ∧ x = none ∨ ∃ y, x = some y ∧ reply.answer o = some y := by
  cases reply with
  | elapsed =>
    cases h
    exact .inl ⟨rfl,rfl⟩
  | _ =>
    obtain ⟨y,hy,hx⟩ := Option.map_eq_some_iff.1 h
    exact .inr ⟨y,hx.symm,hy⟩

end Asked
end Following
end PgBattery
