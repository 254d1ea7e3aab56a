import PgBattery.Analysis
import Mathlib.Data.List.AList

/-! The gateway's record of a session: the requests whose answers it still awaits, what each answer
changes in the state it would replay on another backend, and the two data paths that keep it. -/
namespace PgBattery
namespace Gateway
open Postcard Analysis List

def maxTrackedPreparedStatements : ℕ := 1024
def maxTrackedPreparedBytes : ℕ := 4*1024*1024

inductive TransactionStatus
  | idle | inTransaction | failed
  deriving DecidableEq

inductive ProxyMode
  | normal | copyStreaming | sslPassthrough
  deriving DecidableEq

inductive ReplayChange
  | listen (channel : Bytes)
  | unlisten (channel : Bytes)
  | unlistenAll
  | deallocate (name : Bytes)
  | deallocateAll
  | discardAll
  deriving DecidableEq

inductive Awaited
  | parse (capture : Option (Bytes × Bytes))
  | close (name : Option Bytes)
  | ready (changes : List ReplayChange) (controlsTransaction : Bool)
  deriving DecidableEq

inductive Ack
  | parseComplete
  | closeComplete
  | error
  | ready (status : TransactionStatus)
  deriving DecidableEq

structure ConnectionState where
  queriesProcessed : ℕ := 0
  txStatus : TransactionStatus := .idle
  proxyMode : ProxyMode := .normal
  channels : Finset Bytes := ∅
  prepared : AList fun _ : Bytes => Bytes := ∅
  awaiting : List Awaited := []
  extendedUnsynced : Bool := false
  notMigratable : Bool := false

namespace ConnectionState

def responsePending (s : ConnectionState) : Bool := s.awaiting ≠ [] || s.extendedUnsynced

def isMigratable (s : ConnectionState) : Bool :=
  s.txStatus = .idle && s.proxyMode = .normal && !s.responsePending && !s.notMigratable

def markUnknowable (s : ConnectionState) : ConnectionState := {s with notMigratable := true}

def outOfStep (s : ConnectionState) : ConnectionState := {s with awaiting := []}.markUnknowable

/-- Whether the replay set has no room for a statement: a new one too many, or too many bytes. -/
def atCap (prepared : AList fun _ : Bytes => Bytes) (name bytes : Bytes) : Bool :=
  let kept := ((prepared.entries.filter fun held => held.1 ≠ name).map fun held =>
    held.2.length).sum
  let overCount := name ∉ prepared ∧ maxTrackedPreparedStatements ≤ prepared.keys.length
  overCount ∨ maxTrackedPreparedBytes < kept+bytes.length

def commitCapture (s : ConnectionState) (name bytes : Bytes) : ConnectionState :=
  if atCap s.prepared name bytes then s.markUnknowable
  else {s with prepared := s.prepared.insert name bytes}

def applyChange (s : ConnectionState) : ReplayChange → ConnectionState
  | .listen channel => {s with channels := insert channel s.channels}
  | .unlisten channel => {s with channels := s.channels.erase channel}
  | .unlistenAll => {s with channels := ∅}
  | .deallocate name => {s with prepared := s.prepared.erase name}
  | .deallocateAll => {s with prepared := ∅}
  | .discardAll => {s with prepared := ∅, channels := ∅}

def applyChanges (s : ConnectionState) (changes : List ReplayChange) : ConnectionState :=
  changes.foldl applyChange s

end ConnectionState

def Awaited.isReady : Awaited → Bool
  | .ready .. => true
  | .parse _ | .close _ => false

/-- Fold one backend answer into the record. -/
def acknowledge (s : ConnectionState) : Ack → ConnectionState
  | .parseComplete => match s.awaiting with
    | .parse capture::rest =>
      let s := {s with awaiting := rest}
      match capture with
      | some (name,bytes) => s.commitCapture name bytes
      | none => s
    | [] | .close _::_ | .ready ..::_ => s.outOfStep
  | .closeComplete => match s.awaiting with
    | .close name::rest =>
      let s := {s with awaiting := rest}
      match name with
      | some name => {s with prepared := s.prepared.erase name}
      | none => s
    | [] | .parse _::_ | .ready ..::_ => s.outOfStep
  | .error =>
    -- the backend skips the rest of an extended batch, so none of it runs
    let s := {s with awaiting := s.awaiting.dropWhile fun a => !a.isReady}
    match s.awaiting with
    | .ready changes controls::rest =>
      if changes = [] then s else {s with awaiting := .ready [] controls::rest}.markUnknowable
    | [] | .parse _::_ | .close _::_ => s
  | .ready status => match s.awaiting with
    | .ready changes controls::rest =>
      let s := {s with awaiting := rest}
      if changes = [] then s
      else if status = .idle ∧ !controls then s.applyChanges changes
      else s.markUnknowable
    | [] => s
    | .parse _::_ | .close _::_ => s.outOfStep

/-- A client message, with the parts of it that are read. -/
inductive Frontend
  | query (body : Bytes)
  | parse (msg : Bytes)
  | bind
  | describe
  | execute
  | close (msg : Bytes)
  | sync
  | functionCall
  | flush
  | copyData
  | copyDone
  | copyFail
  | password
  deriving DecidableEq

def cstring (data : Bytes) : Option (Bytes × Bytes) :=
  match data.dropWhile (· ≠ 0) with
  | _::rest => some (data.takeWhile (· ≠ 0),rest)
  | [] => none

def parseStatementName (msg : Bytes) : Option Bytes :=
  (cstring (msg.drop 5)).bind fun (name,_) =>
    if name = [] then none else if isUtf8 name then some name else none

def readCstring (data : Bytes) : Option (Bytes × Bytes) :=
  (cstring data).bind fun (s,rest) => if isUtf8 s then some (s,rest) else none

def parseMessageQuery (msg : Bytes) : Option Bytes :=
  (readCstring (msg.drop 5)).bind fun (_,rest) => (readCstring rest).map Prod.fst

inductive CloseTarget
  | statement | portal
  deriving DecidableEq

def closeTarget (msg : Bytes) : Option (CloseTarget × Bytes) :=
  match msg.drop 5 with
  | [] => none
  | marker::tail =>
    let target := if marker = 83 then some .statement else if marker = 80 then some .portal else none
    target.bind fun target => (cstring tail).bind fun (name,_) =>
      if isUtf8 name then some (target,name) else none

def closedStatement (msg : Bytes) : Option Bytes :=
  (closeTarget msg).bind fun (target,name) =>
    if target = .statement ∧ name ≠ [] then some name else none

def captureParseForReplay (s : ConnectionState) (msg : Bytes) : Option (Bytes × Bytes) :=
  (parseStatementName msg).bind fun name => if s.notMigratable then none else some (name,msg)

/-- One change of a simple query: a ratchet, or a change that waits for its acknowledgement. -/
def applySessionChange (r : ConnectionState × List ReplayChange) :
    SessionChange → ConnectionState × List ReplayChange
  | .listen channel =>
    (if channel = ascii "*" then r.1.markUnknowable else r.1,r.2++[.listen channel])
  | .unlisten channel => (r.1,r.2++[.unlisten channel])
  | .unlistenAll => (r.1,r.2++[.unlistenAll])
  | .deallocate name => (r.1,r.2++[.deallocate name])
  | .deallocateAll => (r.1,r.2++[.deallocateAll])
  | .discardAll => (r.1,r.2++[.discardAll])
  | .setSessionVar | .nonMigratable _ => (r.1.markUnknowable,r.2)

def applySessionChanges (s : ConnectionState) (changes : List SessionChange) :
    ConnectionState × List ReplayChange :=
  changes.foldl applySessionChange (s,[])

section Client
variable (sql : Parser)

def observeParseMessage (s : ConnectionState) (msg : Bytes) : ConnectionState :=
  match parseMessageQuery msg with
  | none => s
  | some query =>
    let flags := queryKeywordFlags query
    let s := if flags.functionState then s.markUnknowable else s
    if (mightContainSessionStateCommand query || flags.subscription || flags.tempObject) &&
        analyzerFindsSessionState sql query then s.markUnknowable
    else s

/-- Track what a simple query may change, and return the answer it is owed. -/
def handleQuery (s : ConnectionState) (body : Bytes) : ConnectionState × Awaited :=
  if body = [] then (s,.ready [] false)
  else
    let query := sql.fromUtf8Lossy body.dropLast
    let flags := queryKeywordFlags query
    let s := if flags.functionState then s.markUnknowable else s
    if !flags.subscription && !(mightContainSessionStateCommand query || flags.tempObject) then
      (s,.ready [] false)
    else
      let analysis := analyzeQuery sql query
      let (s,changes) := applySessionChanges s analysis.sessionChanges
      (s,.ready changes analysis.controlsTransaction)

def handleQueryMessage (s : ConnectionState) : Frontend → ConnectionState × Option Awaited
  | .query body => ((handleQuery sql s body).1,some (handleQuery sql s body).2)
  | .parse msg =>
    let s := observeParseMessage sql s msg
    (s,some (.parse (captureParseForReplay s msg)))
  | .close msg => (s,some (.close (closedStatement msg)))
  | .sync | .functionCall => (s,some (.ready [] false))
  | .bind | .describe | .execute | .flush | .copyData | .copyDone | .copyFail | .password => (s,none)

/-- Whether a forwarded message opens or closes an extended pipeline. -/
def accountForwardedMessage (extendedUnsynced : Option Bool) : Frontend → Option Bool
  | .sync => some false
  | .parse _ | .bind | .describe | .execute | .close _ => some true
  | .query _ | .functionCall | .flush | .copyData | .copyDone | .copyFail | .password =>
    extendedUnsynced

structure ClientBatch where
  state : ConnectionState
  awaited : List Awaited := []
  extendedUnsynced : Option Bool := none

def ClientBatch.forward (b : ClientBatch) (m : Frontend) : ClientBatch :=
  let (state,answer) := handleQueryMessage sql b.state m
  ⟨state,b.awaited++answer.toList,accountForwardedMessage b.extendedUnsynced m⟩

def commitClientBatch (b : ClientBatch) : ConnectionState :=
  {b.state with
    awaiting := b.state.awaiting++b.awaited
    extendedUnsynced := b.extendedUnsynced.getD b.state.extendedUnsynced}

def processClientData (s : ConnectionState) (batch : List Frontend) : ConnectionState :=
  commitClientBatch (batch.foldl (ClientBatch.forward sql) {state := s})

end Client

inductive Backend
  | readyForQuery (status : TransactionStatus)
  | parseComplete
  | closeComplete
  | errorResponse
  | copyInResponse
  | copyOutResponse
  | copyBothResponse
  | other
  deriving DecidableEq

structure BackendDataBatch where
  finalTxStatus : Option TransactionStatus := none
  queriesCompleted : ℕ := 0
  acks : List Ack := []
  modeTransition : Option ProxyMode := none

def observeBackendMessage (b : BackendDataBatch) : Backend → BackendDataBatch
  | .readyForQuery status =>
    ⟨some status,b.queriesCompleted+1,b.acks++[.ready status],some .normal⟩
  | .parseComplete => {b with acks := b.acks++[.parseComplete]}
  | .closeComplete => {b with acks := b.acks++[.closeComplete]}
  | .errorResponse => {b with acks := b.acks++[.error]}
  | .copyInResponse | .copyOutResponse | .copyBothResponse =>
    {b with modeTransition := some .copyStreaming}
  | .other => b

def applyBackendDataBatch (s : ConnectionState) (b : BackendDataBatch) : ConnectionState :=
  let s := b.acks.foldl acknowledge {s with queriesProcessed := s.queriesProcessed+b.queriesCompleted}
  {s with proxyMode := b.modeTransition.getD s.proxyMode, txStatus := b.finalTxStatus.getD s.txStatus}

def processBackendData (s : ConnectionState) (messages : List Backend) : ConnectionState :=
  applyBackendDataBatch s (messages.foldl observeBackendMessage {})

def ConnectionState.requeue (s : ConnectionState) (aw : List Awaited) (ext : Bool) :
    ConnectionState :=
  {s with awaiting := aw, extendedUnsynced := ext}

section OneByOne
variable (sql : Parser) (s : ConnectionState)

def forwardOne (m : Frontend) : ConnectionState := processClientData sql s [m]

def observeOne (m : Backend) : ConnectionState := processBackendData s [m]

section Requeue
variable (aw : List Awaited) (ext : Bool)

theorem markUnknowable_requeue :
    (s.requeue aw ext).markUnknowable = s.markUnknowable.requeue aw ext := rfl

theorem applySessionChange_requeue (replayed : List ReplayChange) (change : SessionChange) :
    applySessionChange (s.requeue aw ext,replayed) change =
      ((applySessionChange (s,replayed) change).1.requeue aw ext,
        (applySessionChange (s,replayed) change).2) := by
  cases change with
  | listen channel =>
    simp only [applySessionChange]
    split_ifs <;> rfl
  | _ => rfl

theorem applySessionChanges_requeue (changes : List SessionChange) :
    applySessionChanges (s.requeue aw ext) changes =
      ((applySessionChanges s changes).1.requeue aw ext,(applySessionChanges s changes).2) := by
  suffices h : ∀ replayed, changes.foldl applySessionChange (s.requeue aw ext,replayed) =
      ((changes.foldl applySessionChange (s,replayed)).1.requeue aw ext,
        (changes.foldl applySessionChange (s,replayed)).2) from h []
  induction changes generalizing s with
  | nil => exact fun _ => rfl
  | cons change changes ih =>
    intro replayed
    rw [foldl_cons,applySessionChange_requeue,foldl_cons]
    exact ih _ _

theorem observeParseMessage_requeue (msg : Bytes) :
    observeParseMessage sql (s.requeue aw ext) msg =
      (observeParseMessage sql s msg).requeue aw ext := by
  rw [observeParseMessage,observeParseMessage]
  cases parseMessageQuery msg with
  | none => rfl
  | some query =>
    dsimp only
    split_ifs <;> rfl

theorem handleQuery_requeue (body : Bytes) :
    handleQuery sql (s.requeue aw ext) body =
      ((handleQuery sql s body).1.requeue aw ext,(handleQuery sql s body).2) := by
  simp only [handleQuery,markUnknowable_requeue]
  split_ifs
  · rfl
  · rfl
  · rfl
  · rw [applySessionChanges_requeue]
  · rw [applySessionChanges_requeue]

theorem handleQueryMessage_requeue (m : Frontend) :
    handleQueryMessage sql (s.requeue aw ext) m =
      ((handleQueryMessage sql s m).1.requeue aw ext,(handleQueryMessage sql s m).2) := by
  cases m with
  | query body => simp only [handleQueryMessage,handleQuery_requeue]
  | parse msg =>
    simp only [handleQueryMessage,observeParseMessage_requeue]
    rfl
  | _ => rfl

end Requeue

theorem handleQueryMessage_eq (m : Frontend) :
    (handleQueryMessage sql s m).1 =
      (handleQueryMessage sql s m).1.requeue s.awaiting s.extendedUnsynced :=
  congrArg Prod.fst (handleQueryMessage_requeue sql s s.awaiting s.extendedUnsynced m)

def Marks (s s' : ConnectionState) : Prop := s' = s ∨ s' = s.markUnknowable

theorem marks_if (p : Prop) [Decidable p] : Marks s (if p then s.markUnknowable else s) := by
  split_ifs
  · exact .inr rfl
  · exact .inl rfl

variable {s} in
theorem Marks.trans {s₁ s₂ : ConnectionState} (h₁ : Marks s s₁) (h₂ : Marks s₁ s₂) : Marks s s₂ := by
  rcases h₁ with rfl | rfl
  · exact h₂
  · right
    rcases h₂ with rfl | rfl <;> rfl

theorem applySessionChanges_marks (changes : List SessionChange) :
    Marks s (applySessionChanges s changes).1 := by
  suffices h : ∀ r, Marks r.1 (changes.foldl applySessionChange r).1 from h (s,[])
  induction changes with
  | nil => exact fun _ => .inl rfl
  | cons change changes ih =>
    intro r
    refine Marks.trans ?_ (ih (applySessionChange r change))
    cases change with
    | listen channel => exact marks_if r.1 _
    | setSessionVar | nonMigratable _ => exact .inr rfl
    | _ => exact .inl rfl

theorem observeParseMessage_marks (msg : Bytes) : Marks s (observeParseMessage sql s msg) := by
  rw [observeParseMessage]
  cases parseMessageQuery msg with
  | none => exact .inl rfl
  | some query => exact (marks_if s _).trans (marks_if _ _)

theorem handleQuery_ready (body : Bytes) :
    ∃ changes controls, (handleQuery sql s body).2 = .ready changes controls := by
  rw [handleQuery]
  dsimp only
  split_ifs <;> exact ⟨_,_,rfl⟩

theorem handleQueryMessage_marks (m : Frontend) : Marks s (handleQueryMessage sql s m).1 := by
  cases m with
  | query body =>
    simp only [handleQueryMessage,handleQuery]
    by_cases he : body = []
    · rw [if_pos he]
      exact .inl rfl
    · rw [if_neg he]
      split_ifs
      · exact .inr rfl
      · exact .inl rfl
      · exact Marks.trans (.inr rfl) (applySessionChanges_marks _ _)
      · exact applySessionChanges_marks _ _
  | parse msg => exact observeParseMessage_marks sql s msg
  | _ => exact .inl rfl

theorem forwardOne_eq (m : Frontend) :
    forwardOne sql s m = (handleQueryMessage sql s m).1.requeue
      (s.awaiting++(handleQueryMessage sql s m).2.toList)
      ((accountForwardedMessage none m).getD s.extendedUnsynced) := by
  rw [forwardOne,processClientData,foldl_cons,foldl_nil,ClientBatch.forward]
  dsimp only [commitClientBatch]
  rw [handleQueryMessage_eq]
  rfl

theorem forwardOne_queriesProcessed (m : Frontend) :
    (forwardOne sql s m).queriesProcessed = s.queriesProcessed := by
  rw [forwardOne_eq]
  rcases handleQueryMessage_marks sql s m with h | h <;> rw [h] <;> rfl

theorem account_getD (ext : Option Bool) (m : Frontend) (d : Bool) :
    (accountForwardedMessage ext m).getD d = (accountForwardedMessage none m).getD (ext.getD d) := by
  cases m <;> rfl

theorem commitClientBatch_eq (b : ClientBatch) : commitClientBatch b = b.state.requeue
    (b.state.awaiting++b.awaited) (b.extendedUnsynced.getD b.state.extendedUnsynced) := rfl

theorem commit_forward (b : ClientBatch) (m : Frontend) :
    commitClientBatch (b.forward sql m) = forwardOne sql (commitClientBatch b) m := by
  rw [forwardOne_eq,commitClientBatch_eq b,handleQueryMessage_requeue,commitClientBatch_eq,
    ClientBatch.forward]
  dsimp only
  rw [handleQueryMessage_eq sql b.state m,account_getD,← append_assoc]
  rfl

theorem processClientData_eq_foldl (batch : List Frontend) :
    processClientData sql s batch = batch.foldl (forwardOne sql) s := by
  suffices h : ∀ b : ClientBatch, commitClientBatch (batch.foldl (ClientBatch.forward sql) b) =
      batch.foldl (forwardOne sql) (commitClientBatch b) by
    have hs := h {state := s}
    rwa [show commitClientBatch {state := s} = s by simp [commitClientBatch]] at hs
  induction batch with
  | nil => exact fun _ => rfl
  | cons m batch ih =>
    intro b
    rw [foldl_cons,foldl_cons,ih,commit_forward]

def ConnectionState.restate (s : ConnectionState) (n : ℕ) (mode : ProxyMode)
    (status : TransactionStatus) : ConnectionState :=
  {s with queriesProcessed := n, proxyMode := mode, txStatus := status}

section Restate
variable (n : ℕ) (mode : ProxyMode) (status : TransactionStatus)

theorem commitCapture_restate (name bytes : Bytes) :
    (s.restate n mode status).commitCapture name bytes =
      (s.commitCapture name bytes).restate n mode status := by
  change (if ConnectionState.atCap s.prepared name bytes then _ else _) = _
  rw [ConnectionState.commitCapture]
  split_ifs <;> rfl

theorem applyChanges_restate (changes : List ReplayChange) :
    (s.restate n mode status).applyChanges changes =
      (s.applyChanges changes).restate n mode status := by
  rw [ConnectionState.applyChanges,ConnectionState.applyChanges]
  induction changes generalizing s with
  | nil => rfl
  | cons change changes ih =>
    have ho : (s.restate n mode status).applyChange change =
        (s.applyChange change).restate n mode status := by cases change <;> rfl
    rw [foldl_cons,foldl_cons,ho,ih]

theorem acknowledge_restate (a : Ack) :
    acknowledge (s.restate n mode status) a = (acknowledge s a).restate n mode status := by
  obtain ⟨q,tx,proxy,channels,prepared,awaiting,ext,mig⟩ := s
  cases a
  case error =>
    simp only [acknowledge,ConnectionState.restate]
    split
    · split_ifs <;> rfl
    all_goals rfl
  all_goals rcases awaiting with _ | ⟨(_ | ⟨name,bytes⟩) | (_ | _) | ⟨changes,controls⟩,rest⟩ <;> try rfl
  case parseComplete.cons.parse.some =>
    exact commitCapture_restate ⟨q,tx,proxy,channels,prepared,rest,ext,mig⟩ n mode status name bytes
  case ready.cons.ready =>
    simp only [acknowledge,ConnectionState.restate]
    split_ifs
    · rfl
    · exact applyChanges_restate ⟨q,tx,proxy,channels,prepared,rest,ext,mig⟩ n mode status changes
    · rfl

theorem foldl_acknowledge_restate (acks : List Ack) :
    acks.foldl acknowledge (s.restate n mode status) =
      (acks.foldl acknowledge s).restate n mode status := by
  induction acks generalizing s with
  | nil => rfl
  | cons a acks ih => rw [foldl_cons,foldl_cons,acknowledge_restate,ih]

end Restate

theorem applyBackendDataBatch_eq (b : BackendDataBatch) :
    applyBackendDataBatch s b = (b.acks.foldl acknowledge s).restate
      (s.queriesProcessed+b.queriesCompleted) (b.modeTransition.getD s.proxyMode)
      (b.finalTxStatus.getD s.txStatus) := by
  have hc := foldl_acknowledge_restate s (s.queriesProcessed+b.queriesCompleted) s.proxyMode
    s.txStatus b.acks
  rw [applyBackendDataBatch]
  simp only [ConnectionState.restate] at hc ⊢
  rw [hc]

theorem apply_observe (b : BackendDataBatch) (m : Backend) :
    applyBackendDataBatch s (observeBackendMessage b m) = observeOne (applyBackendDataBatch s b) m := by
  rw [observeOne,processBackendData,foldl_cons,foldl_nil,applyBackendDataBatch_eq,
    applyBackendDataBatch_eq (applyBackendDataBatch s b),applyBackendDataBatch_eq s b]
  cases m <;> simp only [observeBackendMessage,foldl_append,foldl_cons,foldl_nil,nil_append,acknowledge_restate]
  case readyForQuery => simp [ConnectionState.restate,Nat.add_assoc]
  all_goals rfl

theorem processBackendData_eq_foldl (messages : List Backend) :
    processBackendData s messages = messages.foldl observeOne s := by
  suffices h : ∀ b, applyBackendDataBatch s (messages.foldl observeBackendMessage b) =
      messages.foldl observeOne (applyBackendDataBatch s b) from h {}
  induction messages with
  | nil => exact fun _ => rfl
  | cons m messages ih =>
    intro b
    rw [foldl_cons,foldl_cons,ih,apply_observe]

theorem observeOne_eq (m : Backend) : observeOne s m = match m with
    | .readyForQuery status =>
      (acknowledge s (.ready status)).restate (s.queriesProcessed+1) .normal status
    | .parseComplete => acknowledge s .parseComplete
    | .closeComplete => acknowledge s .closeComplete
    | .errorResponse => acknowledge s .error
    | .copyInResponse | .copyOutResponse | .copyBothResponse => {s with proxyMode := .copyStreaming}
    | .other => s := by
  have hk : ∀ a, (acknowledge s a).restate s.queriesProcessed s.proxyMode s.txStatus =
      acknowledge s a := fun a => (acknowledge_restate s _ _ _ a).symm
  rw [observeOne,processBackendData,foldl_cons,foldl_nil,applyBackendDataBatch_eq]
  cases m with
  | parseComplete => exact hk .parseComplete
  | closeComplete => exact hk .closeComplete
  | errorResponse => exact hk .error
  | _ => rfl

structure Settles (s s' : ConnectionState) : Prop where
  queriesProcessed : s'.queriesProcessed = s.queriesProcessed
  txStatus : s'.txStatus = s.txStatus
  proxyMode : s'.proxyMode = s.proxyMode
  extendedUnsynced : s'.extendedUnsynced = s.extendedUnsynced
  notMigratable : s.notMigratable → s'.notMigratable

variable {s} in
theorem Settles.trans {s₁ s₂ : ConnectionState} (h₁ : Settles s s₁) (h₂ : Settles s₁ s₂) :
    Settles s s₂ where
  queriesProcessed := h₂.queriesProcessed.trans h₁.queriesProcessed
  txStatus := h₂.txStatus.trans h₁.txStatus
  proxyMode := h₂.proxyMode.trans h₁.proxyMode
  extendedUnsynced := h₂.extendedUnsynced.trans h₁.extendedUnsynced
  notMigratable h := h₂.notMigratable (h₁.notMigratable h)

theorem markUnknowable_settles (aw : List Awaited) :
    Settles s {s with awaiting := aw}.markUnknowable := ⟨rfl,rfl,rfl,rfl,fun _ => rfl⟩

theorem awaiting_settles (aw : List Awaited) : Settles s {s with awaiting := aw} :=
  ⟨rfl,rfl,rfl,rfl,id⟩

theorem applyChanges_settles (changes : List ReplayChange) : Settles s (s.applyChanges changes) := by
  induction changes generalizing s with
  | nil => exact ⟨rfl,rfl,rfl,rfl,id⟩
  | cons change changes ih =>
    refine Settles.trans ?_ (ih (s.applyChange change))
    cases change <;> exact ⟨rfl,rfl,rfl,rfl,id⟩

theorem applyChanges_awaiting (changes : List ReplayChange) :
    (s.applyChanges changes).awaiting = s.awaiting := by
  induction changes generalizing s with
  | nil => rfl
  | cons change changes ih =>
    refine (ih (s.applyChange change)).trans ?_
    cases change <;> rfl

theorem acknowledge_settles (a : Ack) : Settles s (acknowledge s a) := by
  fun_cases acknowledge s a
  case case1 =>
    rw [ConnectionState.commitCapture]
    split_ifs
    · exact markUnknowable_settles s _
    · exact ⟨rfl,rfl,rfl,rfl,id⟩
  case case17 => exact (awaiting_settles s _).trans (applyChanges_settles _ _)
  all_goals first | exact ⟨rfl,rfl,rfl,rfl,id⟩ | exact markUnknowable_settles s _

theorem acknowledge_ready_awaiting (status : TransactionStatus) :
    (acknowledge s (.ready status)).notMigratable ∨
      (acknowledge s (.ready status)).awaiting = s.awaiting.tail ∧
        s.awaiting.head?.all Awaited.isReady := by
  simp only [acknowledge]
  split
  · next changes controls rest h =>
    rw [h]
    split_ifs
    · exact .inr ⟨rfl,rfl⟩
    · exact .inr ⟨applyChanges_awaiting _ _,rfl⟩
    · exact .inl rfl
  · next h =>
    rw [h]
    exact .inr ⟨rfl,rfl⟩
  all_goals exact .inl rfl

theorem countP_dropWhile_isReady (aw : List Awaited) :
    (aw.dropWhile fun a => !a.isReady).countP Awaited.isReady = aw.countP Awaited.isReady := by
  induction aw with
  | nil => rfl
  | cons a aw ih =>
    cases a with
    | ready changes controls => rfl
    | _ => exact ih

/-- No other answer settles a ReadyForQuery. -/
theorem acknowledge_countP (a : Ack) (ha : ∀ status, a ≠ .ready status) :
    (acknowledge s a).notMigratable ∨
      (acknowledge s a).awaiting.countP Awaited.isReady = s.awaiting.countP Awaited.isReady := by
  have hc := countP_dropWhile_isReady s.awaiting
  fun_cases acknowledge s a
  case case1 =>
    rw [ConnectionState.commitCapture]
    split_ifs <;> simp_all +zetaDelta [ConnectionState.markUnknowable,Awaited.isReady]
  all_goals simp_all +zetaDelta [ConnectionState.markUnknowable,ConnectionState.outOfStep,Awaited.isReady]

end OneByOne

end Gateway
end PgBattery
