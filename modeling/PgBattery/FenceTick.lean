import PgBattery.Interaction
import PgBattery.Word

/-! The lease fence: ticks that look at the local PostgreSQL, close its writes when the lease is gone,
and take the process down after five closes in a row that failed. -/
namespace PgBattery
namespace FenceTick
open Interaction TransitionSystem

section Session

inductive Error
  | postgresNotReady (text : String)
  | postgres (text : String)
  | protocol (text : String)
  deriving DecidableEq

inductive Failure
  | error (e : Error)
  | elapsed
  deriving DecidableEq

abbrev Reply (α : Type) := Except Failure α

/-- `default_transaction_read_only` as the server runs it and as the next reload sets it. -/
structure ReadOnlyGuc where
  live : Bool
  onReload : Bool
  deriving DecidableEq

def ReadOnlyGuc.settled (g : ReadOnlyGuc) (readOnly : Bool) : Bool :=
  g.live == readOnly && g.onReload == readOnly

structure PgWriteState where
  inRecovery : Bool
  readOnly : ReadOnlyGuc
  syncListEmpty : Bool
  syncStandbys : ℕ
  deriving DecidableEq

def PgWriteState.clientWritable (s : PgWriteState) : Bool := !s.inRecovery && !s.readOnly.settled true

/-- What a tick asks: the statements of its session, the lease, and whether the time to wait for a
reload is over. -/
inductive Op
  | probeRoleAndReadonly
  | isInRecovery
  | readOnlyGuc
  | alterSystem (readOnly : Bool)
  | reloadConf
  | queryReadonlyStatus
  | settleOver
  | terminateClientBackends
  | readLease

def Op.Ans : Op → Type
  | .probeRoleAndReadonly => Reply PgWriteState
  | .isInRecovery | .queryReadonlyStatus => Reply Bool
  | .readOnlyGuc => Reply ReadOnlyGuc
  | .alterSystem _ | .reloadConf => Reply Unit
  | .settleOver => Bool
  | .terminateClientBackends => Reply String
  | .readLease => Bool × Bool

abbrev Asking := Program Op Op.Ans
abbrev Fallible := ExceptT Failure Asking

def isInRecovery : Fallible Bool := ExceptT.mk (Program.perform Op.isInRecovery)
def queryReadonlyStatus : Fallible Bool := ExceptT.mk (Program.perform Op.queryReadonlyStatus)
def readOnlyGuc : Asking (Reply ReadOnlyGuc) := Program.perform Op.readOnlyGuc
def settleOver : Asking Bool := Program.perform Op.settleOver

def alterSystem (readOnly : Bool) : Fallible Unit := do
  ExceptT.mk (Program.perform (Op.alterSystem readOnly))
  ExceptT.mk (Program.perform Op.reloadConf)

/-- Poll the live value until it is the one written or the time is over; the fuel is the number of
polls that fit in that time. -/
def awaitReadonly (readOnly : Bool) : ℕ → Bool → Fallible Bool
  | 0, actual => pure actual
  | n+1, actual =>
    if actual = readOnly then pure actual
    else do
      if ← ExceptT.lift settleOver then pure actual
      else awaitReadonly readOnly n (← queryReadonlyStatus)

def verifyReadonly (readOnly : Bool) : Fallible Unit := do
  let actual ← awaitReadonly readOnly 12 (← queryReadonlyStatus)
  if actual = readOnly then pure ()
  else throw (.error (.postgres
    s!"read-only fence verification failed: expected {readOnly}, got {actual} after 300ms"))

def writeAndVerify (readOnly : Bool) : Fallible Unit := do
  alterSystem readOnly
  verifyReadonly readOnly

def writeReadonlyGuc (readOnly : Bool) : Fallible Unit := do
  match ← ExceptT.lift readOnlyGuc with
  | .ok guc => if guc.settled readOnly then pure () else writeAndVerify readOnly
  | .error (.error _) => writeAndVerify readOnly
  -- the budget is the caller's: nothing of the call goes on past it
  | .error .elapsed => throw .elapsed

def setReadonly (readOnly : Bool) : Fallible Unit := do
  if ← isInRecovery then pure () else writeReadonlyGuc readOnly

end Session

section Tick

inductive Call
  | probe
  | lease
  | close
  | terminateClientBackends
  deriving DecidableEq

def Call.Ans : Call → Type
  | .probe => Reply PgWriteState
  | .lease => Bool × Bool
  | .close => Reply Unit
  | .terminateClientBackends => Reply String

abbrev Calling := Program Call Call.Ans

def askProbe : Calling (Reply PgWriteState) := Program.perform Call.probe
def askLease : Calling (Bool × Bool) := Program.perform Call.lease
def askClose : Calling (Reply Unit) := Program.perform Call.close
def askTerminate : Calling (Reply String) := Program.perform Call.terminateClientBackends

def session : (c : Call) → Asking c.Ans
  | .probe => Program.perform Op.probeRoleAndReadonly
  | .lease => Program.perform Op.readLease
  | .close => (setReadonly true).run
  | .terminateClientBackends => Program.perform Op.terminateClientBackends

inductive FenceAction
  | close
  | terminateBypassers
  | none
  deriving DecidableEq

def action (leaseValid writable : Bool) (inRecovery : Option Bool) : FenceAction :=
  if leaseValid then .none
  else if writable then .close
  else if inRecovery = some false then .terminateBypassers
  else .none

/-- What a probe tells: `(inRecovery, writable)`. -/
def observed : Reply PgWriteState → Option Bool × Option Bool
  | .ok state => (some state.inRecovery,some state.clientWritable)
  | .error (.error (.postgresNotReady _)) => (none,some false)
  | .error _ => (none,none)

inductive Closed
  | fenced
  | failed (stop : Bool)

def fenceFailureShutdownThreshold : ℕ := 5

structure SpecEvent where
  writable : Option Bool
  leaseValid : Bool
  leaseLeader : Bool
  deriving DecidableEq

structure Fence where
  failures : U32
  shutdown : Bool
  traced : Option SpecEvent
  stopped : Bool
  deriving DecidableEq

def Fence.start : Fence := ⟨0,false,none,false⟩

def close (s : Fence) : Calling (Closed × Fence) := do
  match ← askClose with
  | .ok () =>
    let _ ← askTerminate
    pure (.fenced,{s with failures := 0})
  -- gone between probe and close; the count stays
  | .error (.error (.postgresNotReady _)) => pure (.fenced,s)
  | .error _ =>
    let failures := s.failures.saturatingAdd 1
    let stop : Bool := fenceFailureShutdownThreshold ≤ failures.val
    pure (.failed stop,{s with failures, shutdown := s.shutdown || stop})

def act (s : Fence) (inRecovery writable : Option Bool) (leaseValid : Bool) :
    Calling (Bool × Option Bool × Fence) :=
  match action leaseValid (writable.getD true) inRecovery with
  | .close => do
    match ← close s with
    | (.fenced,s) => pure (false,some false,s)
    | (.failed stop,s) => pure (stop,writable,s)
  | .terminateBypassers => do
    let _ ← askTerminate
    pure (false,writable,{s with failures := 0})
  | .none => pure (false,writable,{s with failures := 0})

def tick (s : Fence) : Calling Fence := do
  let (inRecovery,writable) := observed (← askProbe)
  let (leaseValid,leaseLeader) ← askLease
  let (stop,writableAfter,s) ← act s inRecovery writable leaseValid
  pure {s with traced := some ⟨writableAfter,leaseValid,leaseLeader⟩, stopped := stop}

structure Tick where
  probe : Reply PgWriteState
  leaseValid : Bool
  leaseLeader : Bool
  close : Reply Unit
  terminate : Reply String

def Tick.answers (t : Tick) : (c : Call) → c.Ans
  | .probe => t.probe
  | .lease => (t.leaseValid,t.leaseLeader)
  | .close => t.close
  | .terminateClientBackends => t.terminate

/-- The loop: one tick after another until one of them stops it. -/
def step (s : Fence) (t : Tick) : Option Fence :=
  if s.stopped then none else some ((tick s).eval t.answers)

end Tick

section Observation
variable {s s' : Fence} {t : Tick}

def notReady {α : Type} : Reply α → Bool
  | .error (.error (.postgresNotReady _)) => true
  | .ok _ | .error _ => false

def Tick.closes (t : Tick) : Bool :=
  action t.leaseValid ((observed t.probe).2.getD true) (observed t.probe).1 = .close

def Tick.failsToClose (t : Tick) : Bool := t.closes && !t.close.isOk && !notReady t.close

/-- The probe, or the close, saw the server fenced, in recovery or not serving. -/
def Tick.observesFenced (t : Tick) : Bool :=
  (match t.probe with
    | .ok state => state.inRecovery || state.readOnly.settled true
    | .error _ => notReady t.probe) ||
  t.closes && (t.close.isOk || notReady t.close)

def Tick.counts (t : Tick) (failures : U32) : U32 :=
  if t.failsToClose then failures.saturatingAdd 1
  else if t.closes && notReady t.close then failures
  else 0

theorem observed_writable (t : Tick) : (observed t.probe).2 = some false ↔
    (match t.probe with
      | .ok state => state.inRecovery || state.readOnly.settled true
      | .error _ => notReady t.probe) = true := by
  rcases t.probe with (e | _) | state
  · cases e <;> simp [observed,notReady]
  · simp [observed,notReady]
  · simp only [observed,PgWriteState.clientWritable,Option.some.injEq,Bool.and_eq_false_imp,
      Bool.not_eq_true',Bool.not_eq_false',Bool.or_eq_true]
    cases state.inRecovery <;> simp

theorem eval_close (s : Fence) (t : Tick) :
    (close s).eval t.answers =
      if t.close.isOk then (.fenced,{s with failures := 0})
      else if notReady t.close then (.fenced,s)
      else (.failed (fenceFailureShutdownThreshold ≤ (s.failures.saturatingAdd 1).val),
        {s with failures := s.failures.saturatingAdd 1, shutdown := s.shutdown ||
          fenceFailureShutdownThreshold ≤ (s.failures.saturatingAdd 1).val}) := by
  have ha : askClose.eval t.answers = t.close := rfl
  rw [close,Program.eval_bind,ha]
  rcases t.close with (e | _) | _
  · cases e <;> rfl
  · rfl
  · rfl

theorem eval_tick (s : Fence) (t : Tick) :
    ((tick s).eval t.answers).failures = t.counts s.failures ∧
    ((tick s).eval t.answers).stopped =
      (t.failsToClose && fenceFailureShutdownThreshold ≤ (t.counts s.failures).val) ∧
    ((tick s).eval t.answers).shutdown =
      (s.shutdown || t.failsToClose && fenceFailureShutdownThreshold ≤ (t.counts s.failures).val) := by
  have ht : (tick s).eval t.answers =
      let r := (act s (observed t.probe).1 (observed t.probe).2 t.leaseValid).eval t.answers
      {r.2.2 with traced := some ⟨r.2.1,t.leaseValid,t.leaseLeader⟩, stopped := r.1} := by
    simp only [tick,Program.eval_bind]
    rfl
  rw [ht,act,Tick.counts,Tick.failsToClose,Tick.closes]
  cases ha : action t.leaseValid ((observed t.probe).2.getD true) (observed t.probe).1 with
  | close =>
    simp only [Program.eval_bind,eval_close]
    cases hok : t.close.isOk with
    | true =>
      have hr : notReady t.close = false := by
        cases hc : t.close with
        | error e => rw [hc] at hok; cases hok
        | ok a => rfl
      simp [hr]
    | false =>
      cases hr : notReady t.close with
      | true => simp
      | false => simp
  | terminateBypassers => simp [Program.eval_bind]
  | none => simp
theorem step_eq (h : step s t = some s') : s.stopped = false ∧ s'.failures = t.counts s.failures ∧
    s'.stopped = (t.failsToClose && fenceFailureShutdownThreshold ≤ (t.counts s.failures).val) ∧
    s'.shutdown = (s.shutdown ||
      t.failsToClose && fenceFailureShutdownThreshold ≤ (t.counts s.failures).val) := by
  rw [step] at h
  cases hs : s.stopped with
  | true => simp [hs] at h
  | false =>
    simp only [hs,Bool.false_eq_true,if_false,Option.some.injEq] at h
    subst h
    exact ⟨rfl,eval_tick s t⟩

theorem observesFenced_eq (h : t.leaseValid = false) : t.observesFenced = !t.failsToClose := by
  have hp := observed_writable t
  have hc : t.closes = decide (¬(observed t.probe).2 = some false) := by
    rw [Tick.closes,action,h]
    rcases (observed t.probe).2 with _ | _ | _
    · simp
    · by_cases hr : (observed t.probe).1 = some false <;> simp [hr]
    · simp
  rw [Tick.observesFenced,Tick.failsToClose]
  by_cases hw : (observed t.probe).2 = some false
  · rw [hp.1 hw,hc]
    simp [hw]
  · rw [Bool.eq_false_iff.2 (mt hp.2 hw),hc]
    simp only [hw,not_false_eq_true,decide_true,Bool.true_and,Bool.false_or]
    cases t.close.isOk <;> simp

/-- No close that failed before is followed by one that finds the server gone. -/
def Answered (s : Fence) (t : Tick) : Prop := s.failures = 0 ∨ (t.closes && notReady t.close) = false

instance instDecidableAnswered (s : Fence) (t : Tick) : Decidable (Answered s t) :=
  inferInstanceAs (Decidable (_ ∨ _))

theorem counts_of_observesFenced (hs : Answered s t) (h : t.observesFenced) :
    t.counts s.failures = 0 := by
  have hf : t.failsToClose = false := by
    cases hl : t.leaseValid with
    | false =>
      rw [observesFenced_eq hl] at h
      simpa using h
    | true => simp [Tick.failsToClose,Tick.closes,action,hl]
  rw [Tick.counts,hf]
  rcases hs with hs | hs
  · simp [hs]
  · simp [hs]

end Observation

section Escalation

/-- Five closes failed and no tick from the first to the last of them saw the server fenced. -/
def FiveFailures (past : List Tick) : Prop :=
  ∃ l m r, past = l++m++r ∧ (∀ t ∈ m, t.observesFenced = false) ∧
    fenceFailureShutdownThreshold ≤ m.countP Tick.failsToClose

/-- The closes that failed since the server was last seen fenced. -/
def streak (past : List Tick) : ℕ :=
  (past.reverse.takeWhile fun t => !t.observesFenced).countP Tick.failsToClose

theorem streak_concat (past : List Tick) (t : Tick) : streak (past++[t]) =
    if t.observesFenced then 0 else streak past+if t.failsToClose then 1 else 0 := by
  rw [streak,List.reverse_append,List.reverse_singleton,List.singleton_append,List.takeWhile_cons]
  cases ho : t.observesFenced with
  | true => simp
  | false => simp [streak,List.countP_cons]

theorem countP_le_streak {l m : List Tick} (hm : ∀ t ∈ m, t.observesFenced = false) :
    m.countP Tick.failsToClose ≤ streak (l++m) := by
  rw [streak,List.reverse_append,List.takeWhile_append_of_pos (by simpa using hm),List.countP_append,
    List.countP_reverse]
  exact Nat.le_add_right _ _

variable {past : List Tick}

theorem fiveFailures_of_streak (h : fenceFailureShutdownThreshold ≤ streak past) :
    FiveFailures past := by
  refine ⟨(past.reverse.dropWhile fun t => !t.observesFenced).reverse,
    (past.reverse.takeWhile fun t => !t.observesFenced).reverse,[],?_,?_,?_⟩
  · rw [List.append_nil,← List.reverse_append,List.takeWhile_append_dropWhile,List.reverse_reverse]
  · intro t ht
    simpa using List.mem_takeWhile_imp (List.mem_reverse.1 ht)
  · rwa [List.countP_reverse]

theorem fiveFailures_iff : FiveFailures past ↔
    ∃ front ∈ past.inits, fenceFailureShutdownThreshold ≤ streak front := by
  constructor
  · rintro ⟨l,m,r,rfl,hm,hf⟩
    exact ⟨l++m,(List.mem_inits _ _).2 ⟨r,rfl⟩,hf.trans (countP_le_streak hm)⟩
  · rintro ⟨front,hfr,hf⟩
    obtain ⟨rest,rfl⟩ := (List.mem_inits _ _).1 hfr
    obtain ⟨l,m,r,rfl,hm,hc⟩ := fiveFailures_of_streak hf
    exact ⟨l,m,r++rest,by rw [List.append_assoc _ r],hm,hc⟩

theorem fiveFailures_concat {t : Tick} : FiveFailures (past++[t]) ↔
    FiveFailures past ∨ fenceFailureShutdownThreshold ≤ streak (past++[t]) := by
  constructor
  · rintro ⟨l,m,r,hp,hm,hf⟩
    rcases List.eq_nil_or_concat r with rfl | ⟨r,u,rfl⟩
    · right
      rw [hp,List.append_nil]
      exact hf.trans (countP_le_streak hm)
    · left
      rw [List.concat_eq_append,← List.append_assoc] at hp
      exact ⟨l,m,r,(List.append_inj' hp rfl).1,hm,hf⟩
  · rintro (⟨l,m,r,rfl,hm,hf⟩ | hs)
    · exact ⟨l,m,r++[t],by rw [List.append_assoc],hm,hf⟩
    · exact fiveFailures_of_streak hs

/-- The count is the streak, and the loop runs as long as it is below the threshold. -/
structure Inv (past : List Tick) (s : Fence) : Prop where
  failures : s.failures.val = streak past
  shutdown : s.shutdown = s.stopped
  stopped : s.stopped = true ↔ FiveFailures past

theorem inv_start : Inv [] Fence.start := by
  refine ⟨rfl,rfl,?_⟩
  simp [Fence.start,FiveFailures,fenceFailureShutdownThreshold]

theorem inv_step {t : Tick} {s s' : Fence} (hi : Inv past s) (hl : t.leaseValid = false)
    (hs : Answered s t) (h : step s t = some s') : Inv (past++[t]) s' := by
  obtain ⟨hr,hf,hst,hsh⟩ := step_eq h
  have hfe : streak past < fenceFailureShutdownThreshold := by
    by_contra hn
    rw [hi.stopped.2 (fiveFailures_of_streak (not_lt.1 hn))] at hr
    cases hr
  have hc : s'.failures.val = streak (past++[t]) := by
    rw [hf,streak_concat]
    cases ho : t.observesFenced with
    | true => simp [counts_of_observesFenced hs ho]
    | false =>
      have hfa : t.failsToClose = true := by simpa [observesFenced_eq hl] using ho
      rw [fenceFailureShutdownThreshold] at hfe
      simp only [Tick.counts,hfa,U32.saturatingAdd,hi.failures,Bool.false_eq_true,if_true,if_false]
      omega
  have hla : s'.stopped = true ↔ fenceFailureShutdownThreshold ≤ streak (past++[t]) := by
    rw [hst,← hf,← hc,Bool.and_eq_true,decide_eq_true_eq]
    refine ⟨fun h => h.2,fun h => ⟨?_,h⟩⟩
    by_contra hfa
    have ho : t.observesFenced = true := by simpa [observesFenced_eq hl] using hfa
    rw [hf,counts_of_observesFenced hs ho] at h
    cases h
  refine ⟨hc,?_,?_⟩
  · rw [hsh,hi.shutdown,hr,Bool.false_or,hst]
  · rw [hla,fiveFailures_concat,← hi.stopped,hr]
    simp

/-- Induction on the run from its end: the invariant reads the ticks taken so far. -/
theorem inv_run {ticks : List Tick} {s : Fence} (hl : ∀ t ∈ ticks, t.leaseValid = false)
    (hg : Guarded step Answered Fence.start ticks) (h : run step Fence.start ticks = some s) :
    Inv ticks s := by
  induction ticks using List.reverseRecOn generalizing s with
  | nil =>
    cases h
    exact inv_start
  | append_singleton ticks t ih =>
    rw [run_append,Option.bind_eq_some_iff] at h
    obtain ⟨u,hu,hs⟩ := h
    obtain ⟨hb,hla⟩ := (guarded_append _ _ _).1 hg
    rw [run_cons,Option.bind_eq_some_iff] at hs
    obtain ⟨v,hv,he⟩ := hs
    cases he
    refine inv_step (ih (fun t ht => hl t (List.mem_append_left _ ht)) hb hu) ?_
      (hla u hu).1 hv
    exact hl t (List.mem_append_right _ (List.mem_singleton_self t))

end Escalation

section WriteState

/-- The write path of the local server. -/
structure Pg where
  inRecovery : Bool
  readOnly : ReadOnlyGuc
  deriving DecidableEq

def Op.effect : Op → Pg → Pg
  | .alterSystem readOnly, pg => {pg with readOnly := {pg.readOnly with onReload := readOnly}}
  | .reloadConf, pg => {pg with readOnly := {pg.readOnly with live := pg.readOnly.onReload}}
  | .probeRoleAndReadonly, pg | .isInRecovery, pg | .readOnlyGuc, pg | .queryReadonlyStatus, pg
  | .settleOver, pg | .terminateClientBackends, pg | .readLease, pg => pg

def Op.acknowledged : (o : Op) → o.Ans → Bool
  | .alterSystem _, r => Except.isOk (α := Unit) (ε := Failure) r
  | .reloadConf, r => Except.isOk (α := Unit) (ε := Failure) r
  | .probeRoleAndReadonly, _ | .isInRecovery, _ | .readOnlyGuc, _ | .queryReadonlyStatus, _
  | .settleOver, _ | .terminateClientBackends, _ | .readLease, _ => true

/-- How one question is answered: the reply, and whether a statement without an acknowledgement took
effect all the same. -/
structure Env where
  replies : (o : Op) → o.Ans
  lands : Bool

def answer (pg : Pg) (o : Op) (e : Env) : Option (o.Ans × Pg) :=
  some (e.replies o,if o.acknowledged (e.replies o) || e.lands then o.effect pg else pg)

def LeaseRead (valid : Bool) (_ : Pg) : Op → Env → Prop
  | .readLease, e => (e.replies .readLease : Bool × Bool).1 = valid
  | .probeRoleAndReadonly, _ | .isInRecovery, _ | .readOnlyGuc, _ | .queryReadonlyStatus, _
  | .settleOver, _ | .terminateClientBackends, _ | .alterSystem _, _ | .reloadConf, _ => True

variable {pg pg' : Pg} {guard : Pg → Op → Env → Prop}

def Op.Inert (o : Op) : Prop := ∀ pg, o.effect pg = pg

theorem answer_inert {o : Op} (ho : o.Inert) {e : Env} {x : o.Ans} (h : answer pg o e = some (x,pg')) :
    pg' = pg := by
  simp only [answer,Option.some.injEq,Prod.mk.injEq,ho pg,ite_self] at h
  exact h.2.symm

theorem keeps_of_inert {α : Type} {P : Pg → Prop} {p : Asking α} (hp : p.Only Op.Inert) (hpg : P pg) :
    p.Keeps answer guard P (fun _ w => P w) pg := by
  refine Program.keeps_of_only ?_ hp hpg
  intro w o e x w' ho hw _ he
  rw [answer_inert ho he]
  exact ⟨hw,hw⟩

theorem tick_valid (s : Fence) (pg : Pg) :
    ((tick s).interpret session).Keeps answer (LeaseRead true) (fun w => w = pg) (fun _ w => w = pg)
      pg := by
  have hp : (session .probe).Keeps answer (LeaseRead true) (fun w => w = pg) (fun _ w => w = pg) pg :=
    keeps_of_inert ⟨fun _ => rfl,fun _ => trivial⟩ rfl
  have hl : (session .lease).Keeps answer (LeaseRead true) (fun w => w = pg)
      (fun lease w => (lease : Bool × Bool).1 = true ∧ w = pg) pg := by
    intro e lease w hg he
    have hw : w = pg := answer_inert (fun _ => rfl) he
    simp only [answer,Option.some.injEq,Prod.mk.injEq] at he
    refine ⟨hw,?_,hw⟩
    rw [← he.1]
    exact hg
  refine Program.keeps_bind (hp.mono fun r w hw => ?_)
  rw [hw]
  refine Program.keeps_bind (hl.mono fun lease w hw => ?_)
  obtain ⟨valid,leader⟩ := lease
  obtain ⟨rfl,rfl⟩ := hw
  rfl

end WriteState

/-- As long as no close finds the server gone after one that failed: without a lease the shutdown comes
exactly with the fifth failure, a tick that sees the server fenced leaves the count at zero, and a tick
with a lease leaves the server as it is. -/
theorem fence_escalates (ticks : List Tick) (reached : Fence) :
    ((∀ t ∈ ticks, t.leaseValid = false) → Guarded step Answered Fence.start ticks →
      run step Fence.start ticks = some reached → (reached.shutdown = true ↔ FiveFailures ticks)) ∧
    (∀ s t s', Answered s t → step s t = some s' → t.observesFenced = true → s'.failures = 0) ∧
    ∀ s pg events pg' rest,
      Guarded (Program.step answer) (Program.asked (LeaseRead true)) (pg,(tick s).interpret session) events →
      run (Program.step answer) (pg,(tick s).interpret session) events = some (pg',rest) → pg' = pg := by
  refine ⟨fun hl hg hr => ?_,fun s t s' hs hst ho => ?_,
    fun s pg events pg' rest hg hr => ?_⟩
  · have hi := inv_run hl hg hr
    rw [hi.shutdown]
    exact hi.stopped
  · obtain ⟨_,hf,_⟩ := step_eq hst
    rw [hf]
    exact counts_of_observesFenced hs ho
  · have hsa := Program.run_keeps (tick_valid s pg) (Eq.refl pg) hg hr
    exact hsa

def refusing : Tick :=
  ⟨.ok ⟨false,⟨false,false⟩,false,1⟩,false,true,
    .error (.error (.postgres "read-only fence verification failed: expected true, got false after 300ms")),
    .ok "0"⟩

def gone : Tick :=
  {refusing with close := .error (.error (.postgresNotReady
    "local PostgreSQL did not answer: connection closed"))}

def fencing : Tick := {refusing with close := .ok ()}

def leased : Env where
  replies
    | .probeRoleAndReadonly => refusing.probe
    | .isInRecovery | .queryReadonlyStatus => .error .elapsed
    | .readOnlyGuc => .error .elapsed
    | .alterSystem _ | .reloadConf => .error .elapsed
    | .settleOver => true
    | .terminateClientBackends => .error .elapsed
    | .readLease => (true,true)
  lands := true

theorem five_refusals_escalate :
    (run step Fence.start (List.replicate 5 refusing)).map Fence.shutdown = some true ∧
    FiveFailures (List.replicate 5 refusing) ∧
    (step ⟨3,false,none,false⟩ fencing).map Fence.failures = some 0 ∧
    (run (Program.step answer) (⟨false,⟨false,false⟩⟩,(tick Fence.start).interpret session)
      [leased,leased]).map Prod.fst = some ⟨false,⟨false,false⟩⟩ := by
  have hr : run step Fence.start (List.replicate 5 refusing) =
      some ⟨5,true,some ⟨some true,false,true⟩,true⟩ := by decide
  have ha := fence_escalates (List.replicate 5 refusing) ⟨5,true,some ⟨some true,false,true⟩,true⟩
  have hf := (ha.1 (by decide) (by decide) hr).1 rfl
  obtain ⟨s',hs⟩ : ∃ s', step ⟨3,false,none,false⟩ fencing = some s' := ⟨_,rfl⟩
  have hz := ha.2.1 _ _ s' (by decide) hs (by decide)
  obtain ⟨⟨pg',rest⟩,hl⟩ : ∃ c, run (Program.step answer)
      (⟨false,⟨false,false⟩⟩,(tick Fence.start).interpret session) [leased,leased] = some c := ⟨_,rfl⟩
  have hsa := ha.2.2 _ _ [leased,leased] pg' rest
    ⟨trivial,fun c hc => ⟨by cases hc; rfl,fun _ _ => trivial⟩⟩ hl
  refine ⟨by rw [hr]; rfl,hf,?_,?_⟩
  · rw [hs,Option.map_some,hz]
  · rw [hl,Option.map_some,hsa]

/-- Four failures, a close that finds the server gone, one more failure: the process is taken down, and
the count never restarted. -/
theorem gone_keeps_the_count :
    (run step Fence.start ([refusing,refusing,refusing,refusing,gone,refusing])).map Fence.shutdown =
      some true ∧
    ¬FiveFailures [refusing,refusing,refusing,refusing,gone,refusing] ∧
    gone.observesFenced = true ∧
    (run step Fence.start [refusing,refusing,refusing,refusing,gone]).map Fence.failures = some 4 := by
  refine ⟨by decide,?_,by decide,by decide⟩
  rw [fiveFailures_iff]
  decide

end FenceTick
end PgBattery
