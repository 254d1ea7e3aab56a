import PgBattery.Gateway
import PgBattery.StateMachine

/-! Where a session's queries go, and how the gateway holds a session, moves it to another backend
or ends it, when its route changes or its backend is lost. -/
namespace PgBattery
namespace Failover
open Postcard Analysis Gateway StateMachine List

structure FenceState where
  fenced : Bool := false
  upgradeFrozen : Bool := false
  clientWriteAuthority : Bool := true
  authorityPgAddr : Option SocketAddr := none
  primaryOpen : Bool := true
  deriving DecidableEq

def FenceState.cutoverClientHold (f : FenceState) : Bool :=
  !f.clientWriteAuthority && f.authorityPgAddr.isNone

def FenceState.localClientWritesFenced (f : FenceState) : Bool := !f.clientWriteAuthority

def route (fence : FenceState) (leader : Option SocketAddr) : Option SocketAddr :=
  match fence.authorityPgAddr with
  | some addr => some addr
  | none => if fence.localClientWritesFenced || !fence.primaryOpen then none else leader

def backendStale (fence : FenceState) (leader backend : Option SocketAddr) : Bool :=
  route fence leader ≠ backend

def needsMigration (current : Option SocketAddr) (target : SocketAddr) (backendLost : Bool) : Bool :=
  backendLost || current ≠ some target

inductive Error
  | noLeader
  | connect
  | connectionTimeout
  | backendDisconnected
  | postgresNotReady (reason : String)
  | io
  | channelClosed
  | fenced
  | idleTimeout
  | protocol (reason : String)
  | connectionSevered (reason : String)
  deriving DecidableEq

def reconnectMayRecover : Error → Bool
  | .noLeader | .connect | .connectionTimeout | .backendDisconnected | .postgresNotReady _ | .io => true
  | .channelClosed | .fenced | .idleTimeout | .protocol _ | .connectionSevered _ => false

/-- The FATAL that tells a client why its session ends. -/
inductive Fatal
  | failover (reason : String)
  | idle
  | ending (error : Error)
  deriving DecidableEq

/-- What the two watch channels hold. -/
structure View where
  fence : FenceState := {}
  leader : Option SocketAddr := none

def View.route (v : View) : Option SocketAddr := Failover.route v.fence v.leader

structure Handler where
  state : ConnectionState := {}
  backendAddr : Option SocketAddr := none
  view : View := {}
  extendedProtocolSeen : Bool := false
  told : Option Fatal := none

/-- An action of the handler: what becomes of it, and the result it returns. -/
abbrev Outcome (α : Type) := Handler × Except Error α

def Outcome.andThen {α β : Type} (r : Outcome α) (f : Handler → α → Outcome β) : Outcome β :=
  match r.2 with
  | .ok a => f r.1 a
  | .error e => (r.1,.error e)

def Handler.sendFailoverErrorResponse (h : Handler) (reason : String) : Handler :=
  {h with told := some (.failover reason)}

def Handler.sever {α : Type} (h : Handler) (reason : String) (error : Error) : Outcome α :=
  (h.sendFailoverErrorResponse reason,.error error)

def Handler.announce (h : Handler) (error : Error) : Handler :=
  {h with told := h.told <|> some (.ending error)}

def holdReason (fence : FenceState) : Option String :=
  if fence.upgradeFrozen then some "PostgreSQL major upgrade"
  else if fence.cutoverClientHold then some "blue/green cutover (write authority is elsewhere)"
  else none

def holdExitResumes (fence : FenceState) : Bool := fence.clientWriteAuthority

/-- Hold an idle session until the view that ends the hold, if one comes in time. -/
def Handler.waitForUpgradeHoldIfNeeded (h : Handler) (later : Option View) : Outcome Unit :=
  match holdReason h.view.fence with
  | none => (h,.ok ())
  | some reason =>
    if h.state.txStatus ≠ .idle then
      h.sever (s!"pgbattery: {reason} in progress; in-progress transaction cannot continue") .fenced
    else match later.filter fun v => (holdReason v.fence).isNone with
      | none => h.sever (s!"pgbattery: {reason} hold timed out; severing connection") .fenced
      | some v =>
        let h := {h with view := v}
        if holdExitResumes v.fence then (h,.ok ())
        else h.sever ("pgbattery: write authority moved to another cluster during the hold; " ++
          "reconnect to reach it") .fenced

def Handler.waitForFenceIfNeeded (h : Handler) (later : Option View) : Outcome Unit :=
  if !h.view.fence.fenced then (h,.ok ())
  else if h.state.txStatus ≠ .idle then
    h.sever ("pgbattery: node fenced during leadership change; in-progress transaction cannot " ++
      "continue") .fenced
  else match later.filter fun v => !v.fence.fenced with
    | none => h.sever "pgbattery: fence did not lift before timeout; severing connection" .fenced
    | some v => ({h with view := v},.ok ())

/-- A whole backend message, with the parts of it that are read. -/
inductive Message
  | authentication (code : ℤ)
  | backendKeyData (pid : ℤ) (secret : Bytes)
  | errorResponse (sqlstate : Option Bytes)
  | notificationResponse (channel payload : Bytes)
  | readyForQuery (status : TransactionStatus)
  | parseComplete
  | closeComplete
  | copyInResponse
  | copyOutResponse
  | copyBothResponse
  | other
  deriving DecidableEq

/-- A message as the data path observes it. -/
def Message.observed : Message → Backend
  | .errorResponse _ => .errorResponse
  | .readyForQuery status => .readyForQuery status
  | .parseComplete => .parseComplete
  | .closeComplete => .closeComplete
  | .copyInResponse => .copyInResponse
  | .copyOutResponse => .copyOutResponse
  | .copyBothResponse => .copyBothResponse
  | .authentication _ | .backendKeyData .. | .notificationResponse .. | .other => .other

inductive WaitOutcome
  | ready
  | authChallenge (code : ℤ)
  | refused (sqlstate : Bytes)

/-- Read the messages up to a ReadyForQuery. Those after it are left; `ended` is the error that ends
the stream, and `backendDisconnected` is its plain end. -/
def readUntilReady (ended : Error) (refused : Option Bytes) :
    List Message → Except Error (WaitOutcome × List Message)
  | [] => match refused with
    | some sqlstate =>
      if ended = .backendDisconnected then .ok (.refused sqlstate,[]) else .error ended
    | none => .error ended
  | .authentication code::rest =>
    if code ≠ 0 then .ok (.authChallenge code,rest) else readUntilReady ended refused rest
  | .errorResponse sqlstate::rest =>
    readUntilReady ended (some (refused.getD (sqlstate.getD (ascii "XX000")))) rest
  | .readyForQuery _::rest => .ok (refused.elim .ready .refused,rest)
  | .backendKeyData ..::rest | .notificationResponse ..::rest | .parseComplete::rest
  | .closeComplete::rest | .copyInResponse::rest | .copyOutResponse::rest | .copyBothResponse::rest
  | .other::rest => readUntilReady ended refused rest

def refusalIsTransient (sqlstate : Bytes) : Bool :=
  (ascii "08").isPrefixOf sqlstate || (ascii "57P").isPrefixOf sqlstate || sqlstate = ascii "25006" ||
    sqlstate = ascii "53300"

/-- The text of an SQLSTATE, which is ASCII. -/
def sqlstateText (sqlstate : Bytes) : String :=
  String.ofList (sqlstate.map fun b => Char.ofNat b.val)

def Handler.waitForReady (h : Handler) (ended : Error) (sent : List Message) :
    Outcome (List Message) :=
  match readUntilReady ended none sent with
  | .ok (.ready,rest) => (h,.ok rest)
  | .ok (.refused sqlstate,_) =>
    let text := sqlstateText sqlstate
    if refusalIsTransient sqlstate then
      (h,.error (.postgresNotReady s!"backend refused the session with SQLSTATE {text}"))
    else h.sever (s!"pgbattery: leader changed and the new primary refused to restore this session " ++
        s!"(SQLSTATE {text})")
      (.connectionSevered s!"session restore refused with SQLSTATE {text}")
  | .ok (.authChallenge code,_) =>
    h.sever ("pgbattery: new leader requires authentication; session cannot be migrated " ++
        "transparently")
      (.connectionSevered s!"Backend auth challenge (code {code}) during migration")
  | .error e => (h,.error e)

def Handler.waitForEach (ended : Error) : ℕ → Handler → List Message → Outcome (List Message)
  | 0, h, sent => (h,.ok sent)
  | n+1, h, sent => (h.waitForReady ended sent).andThen (waitForEach ended n)

def Handler.restoreListenSubscriptions (h : Handler) (ended : Error) (sent : List Message) :
    Outcome (List Message) :=
  h.waitForEach ended h.state.channels.card sent

def Handler.restorePreparedStatements (h : Handler) (ended : Error) (sent : List Message) :
    Outcome (List Message) :=
  h.waitForEach ended h.state.prepared.entries.length sent

/-- What one attempt to move the session meets: a freeze that may end in time, the view it starts
in, the views that end its holds, the view it finds its target in, how the connection goes, what the
new backend sends, and the error that ends its stream or a write to it. -/
structure Attempt where
  frozen : Bool := false
  thaws : Bool := true
  view : View
  upgradeHold : Option View := none
  fenceHold : Option View := none
  routed : View
  connect : Except Error Unit := .ok ()
  sent : List Message := []
  ended : Error := .backendDisconnected

/-- The backend a session has moved to: all it sent, and what of that is still to be processed. -/
structure Moved where
  sent : List Message
  rest : List Message

def Handler.migrate (h : Handler) (target : SocketAddr) (a : Attempt) : Outcome Moved :=
  match a.connect with
  | .error e => (h,.error e)
  | .ok () =>
    let h := {h with backendAddr := some target}
    (h.waitForReady a.ended a.sent).andThen fun h rest =>
      (h.restoreListenSubscriptions a.ended rest).andThen fun h rest =>
        (h.restorePreparedStatements a.ended rest).andThen fun h rest => (h,.ok ⟨a.sent,rest⟩)

def hasUnknownCommitOutcome (extendedProtocolSeen : Bool) (txStatus : TransactionStatus) : Bool :=
  extendedProtocolSeen && txStatus ≠ .idle

def Handler.leave (h : Handler) (target : SocketAddr) (a : Attempt) : Outcome Moved :=
  match h.state.proxyMode with
  | .copyStreaming => h.sever ("pgbattery: leader changed while COPY was in progress; COPY stream " ++
      "cannot be migrated") (.connectionSevered "COPY in progress")
  | .sslPassthrough => (h,.error (.connectionSevered "SSL passthrough"))
  | .normal =>
    if hasUnknownCommitOutcome h.extendedProtocolSeen h.state.txStatus then
      h.sever ("pgbattery: leader changed with extended-protocol transaction in flight; commit " ++
        "outcome unknown")
        (.connectionSevered "Extended protocol in non-idle state (commit outcome unknown)")
    else match h.state.txStatus with
      | .idle =>
        if !h.state.isMigratable then
          h.sever ("pgbattery: leader changed; session carries in-flight or non-replayable state " ++
            "and cannot be migrated") (.connectionSevered "Idle but not migratable")
        else h.migrate target a
      | .inTransaction =>
        h.sever ("pgbattery: leader changed while a transaction was in progress; session state " ++
          "cannot be migrated") (.connectionSevered "Transaction status: InTransaction")
      | .failed =>
        h.sever ("pgbattery: leader changed while a transaction was in progress; session state " ++
          "cannot be migrated") (.connectionSevered "Transaction status: Failed")

/-- Hold a session that has no route, as the top of the loop does. -/
def Handler.holdWithoutRoute (h : Handler) (a : Attempt) : Outcome Unit :=
  if h.view.route.isNone ∧ h.state.isMigratable then
    (h.waitForUpgradeHoldIfNeeded a.upgradeHold).andThen fun h _ => h.waitForFenceIfNeeded a.fenceHold
  else (h,.ok ())

/-- Move the session to its route if it must; `none` when it stays. -/
def Handler.handleLeaderChange (h : Handler) (backendLost : Bool) (a : Attempt) :
    Outcome (Option Moved) :=
  ({h with view := a.view}.holdWithoutRoute a).andThen fun h _ =>
    let h := {h with view := a.routed}
    match h.view.route with
    | none => (h,if backendLost then .error .noLeader else .ok none)
    | some target =>
      if needsMigration h.backendAddr target backendLost then
        (h.leave target a).andThen fun h moved => (h,.ok (some moved))
      else (h,.ok none)

def Handler.holdForUpgradeFreezeAfterDisconnect (h : Handler) (thaws : Bool) : Outcome Unit :=
  if thaws then (h,.ok ())
  else h.sever ("pgbattery: PostgreSQL major upgrade in progress; hold timed out, reconnect " ++
    "shortly") .fenced

def Handler.thaw (h : Handler) (a : Attempt) : Outcome Unit :=
  if a.frozen then h.holdForUpgradeFreezeAfterDisconnect a.thaws else (h,.ok ())

/-- How the wait between two attempts to reconnect may end the session. -/
inductive GiveUp
  | deadline | channelClosed

def GiveUp.error : GiveUp → Error
  | .deadline => .backendDisconnected
  | .channelClosed => .channelClosed

/-- Reconnect a session whose backend went away, one attempt after the other. -/
def Handler.recoverLostBackend (giveUp : GiveUp) : List Attempt → Handler → Outcome (Option Moved)
  | [], h => (h,.error giveUp.error)
  | a::attempts, h =>
    (h.thaw a).andThen fun h _ =>
      let r := h.handleLeaderChange true a
      match r.2 with
      | .ok moved => (r.1,.ok moved)
      | .error e =>
        if reconnectMayRecover e then recoverLostBackend giveUp attempts r.1 else (r.1,.error e)

def Handler.rerouteLostBackend (h : Handler) (giveUp : GiveUp) (attempts : List Attempt) :
    Outcome (Option Moved) :=
  let r := h.recoverLostBackend giveUp attempts
  match r.2 with
  | .ok moved => (r.1,.ok moved)
  | .error e =>
    if e = .backendDisconnected then
      r.1.sever "pgbattery: backend disconnected and no primary accepted the session in time" e
    else (r.1,.error e)

def Handler.handleBackendDisconnect (h : Handler) (giveUp : GiveUp) (attempts : List Attempt) :
    Outcome (Option Moved) :=
  if h.state.isMigratable then h.rerouteLostBackend giveUp attempts
  else
    let reason :=
      if h.state.responsePending then
        "pgbattery: backend disconnected with a client request in flight; outcome unknown"
      else match h.state.txStatus with
        | .inTransaction => "pgbattery: backend disconnected while transaction was in progress"
        | .failed => "pgbattery: backend disconnected with a failed transaction pending"
        | .idle => "pgbattery: backend disconnected; session cannot be migrated"
    h.sever reason .backendDisconnected

structure Turn where
  /-- The view a session without a route waits for. -/
  found : Option View := none
  attempt : Attempt
  attempts : List Attempt := []
  giveUp : GiveUp := .deadline

def Handler.awaitRoute (h : Handler) (t : Turn) : Outcome Unit :=
  match t.found.filter fun v => v.route.isSome with
  | some v => ({h with view := v},.ok ())
  | none => h.sever "pgbattery: no primary accepted sessions in time; reconnect" (match t.giveUp with
    | .deadline => .noLeader
    | .channelClosed => .channelClosed)

def Handler.moveToRoute (h : Handler) (t : Turn) : Outcome (Option Moved) :=
  let r := h.handleLeaderChange false t.attempt
  match r.2 with
  | .ok moved => (r.1,.ok moved)
  | .error e =>
    if reconnectMayRecover e then r.1.rerouteLostBackend t.giveUp t.attempts else (r.1,.error e)

def Handler.followRoute (h : Handler) (t : Turn) : Outcome (Option Moved) :=
  let settled := h.state.txStatus = .idle && !h.state.responsePending
  if h.view.route = h.backendAddr then (h,.ok none)
  else if h.view.route ≠ none then h.moveToRoute t
  else if !settled then (h,.ok none)
  else (h.awaitRoute t).andThen fun h _ => h.moveToRoute t

/-- The leader's own lease, as one client batch reads it before and after it is sent. -/
structure LeaseView where
  isLeader : Bool := false
  expired : Bool := false
  expiredAfterSend : Bool := false

def isExtendedFrontendMessage : Frontend → Bool
  | .parse _ | .bind | .execute => true
  | .describe | .close _ | .sync | .query _ | .functionCall | .flush | .copyData | .copyDone
  | .copyFail | .password => false

/-- Forward a batch of client messages, unless the backend is not the session's route or the lease
is over. -/
def Handler.processClientData (sql : Parser) (h : Handler) (lease : LeaseView)
    (batch : List Frontend) : Outcome Unit :=
  if batch = [] then (h,.ok ())
  else if backendStale h.view.fence h.view.leader h.backendAddr then
    h.sever "pgbattery: leader changed; reconnect to reach the new primary" .fenced
  else if lease.isLeader && lease.expired then
    h.sever "pgbattery: leader lease expired; query rejected to prevent split-brain" .fenced
  else
    let h := {h with
      state := Gateway.processClientData sql h.state batch
      extendedProtocolSeen := h.extendedProtocolSeen || batch.any isExtendedFrontendMessage}
    if lease.isLeader && lease.expiredAfterSend then
      h.sever "pgbattery: leader lease expired during message send" .fenced
    else (h,.ok ())

section Specifications
variable {α β : Type} {h h' : Handler}

/-- What an action that lets the session go on leaves alone. -/
structure Handler.Same (h h' : Handler) : Prop where
  state : h'.state = h.state
  told : h'.told = h.told

theorem Handler.Same.trans {h'' : Handler} (h₁ : Handler.Same h h') (h₂ : Handler.Same h' h'') :
    Handler.Same h h'' :=
  ⟨h₂.state.trans h₁.state,h₂.told.trans h₁.told⟩

/-- Unless it ends the session, the action keeps the session's record and tells the client
nothing. -/
def Outcome.Keeps (h : Handler) (r : Outcome α) : Prop :=
  match r.2 with
  | .ok _ => Handler.Same h r.1
  | .error e => reconnectMayRecover e → Handler.Same h r.1

theorem Outcome.Keeps.of_same {r : Outcome α} (hr : Outcome.Keeps h' r) (hs : Handler.Same h h') :
    Outcome.Keeps h r := by
  obtain ⟨h₁,result⟩ := r
  cases result with
  | error e => exact fun he => hs.trans (hr he)
  | ok a => exact hs.trans hr

variable {e ended : Error} {sent rest : List Message} {a : Attempt} {attempts : List Attempt}
  {r : Option Moved}

theorem keeps_sever (h : Handler) (reason : String) (he : reconnectMayRecover e = false) :
    Outcome.Keeps h (h.sever reason e : Outcome α) := by
  intro hr
  rw [he] at hr
  cases hr

theorem Outcome.Keeps.andThen {r : Outcome α} {f : Handler → α → Outcome β} (hr : Outcome.Keeps h r)
    (hf : ∀ h' a, Handler.Same h h' → Outcome.Keeps h' (f h' a)) :
    Outcome.Keeps h (r.andThen f) := by
  obtain ⟨h₁,result⟩ := r
  cases result with
  | error e => exact hr
  | ok a =>
    have hs : Handler.Same h h₁ := hr
    exact (hf h₁ a hs).of_same hs

theorem andThen_eq_ok {r : Outcome α} {f : Handler → α → Outcome β} {b : β}
    (hok : (r.andThen f).2 = .ok b) : ∃ a, r.2 = .ok a ∧ r.andThen f = f r.1 a := by
  obtain ⟨h₁,result⟩ := r
  cases result with
  | error e => cases hok
  | ok a => exact ⟨a,rfl,rfl⟩

def Held (h : Handler) (r : Outcome Unit) : Prop :=
  r.1.backendAddr = h.backendAddr ∧ match r.2 with
    | .ok _ => Handler.Same h r.1
    | .error e => e = .fenced

theorem Held.keeps {r : Outcome Unit} (hr : Held h r) : Outcome.Keeps h r := by
  obtain ⟨h₁,result⟩ := r
  cases result with
  | ok _ => exact hr.2
  | error e =>
    cases hr.2
    exact fun he => by cases he

theorem Held.andThen {r : Outcome Unit} {f : Handler → Unit → Outcome Unit} (hr : Held h r)
    (hf : ∀ h', Held h' (f h' ())) : Held h (r.andThen f) := by
  obtain ⟨h₁,result⟩ := r
  cases result with
  | error e => exact hr
  | ok _ =>
    obtain ⟨hb,hs⟩ := hf h₁
    refine ⟨hb.trans hr.1,?_⟩
    show match (f h₁ ()).2 with
      | .ok _ => Handler.Same h (f h₁ ()).1
      | .error e => e = .fenced
    split at hs
    · exact hr.2.trans hs
    · exact hs

theorem held_waitForUpgradeHoldIfNeeded (h : Handler) (later : Option View) :
    Held h (h.waitForUpgradeHoldIfNeeded later) := by
  fun_cases Handler.waitForUpgradeHoldIfNeeded h later
  all_goals first | exact ⟨rfl,rfl,rfl⟩ | exact ⟨rfl,rfl⟩

theorem held_waitForFenceIfNeeded (h : Handler) (later : Option View) :
    Held h (h.waitForFenceIfNeeded later) := by
  fun_cases Handler.waitForFenceIfNeeded h later
  all_goals first | exact ⟨rfl,rfl,rfl⟩ | exact ⟨rfl,rfl⟩

theorem held_holdWithoutRoute (h : Handler) (a : Attempt) : Held h (h.holdWithoutRoute a) := by
  rw [Handler.holdWithoutRoute]
  split_ifs
  · exact (held_waitForUpgradeHoldIfNeeded h a.upgradeHold).andThen fun h' =>
      held_waitForFenceIfNeeded h' a.fenceHold
  · exact ⟨rfl,rfl,rfl⟩

theorem keeps_waitForUpgradeHoldIfNeeded (h : Handler) (later : Option View) :
    Outcome.Keeps h (h.waitForUpgradeHoldIfNeeded later) := (held_waitForUpgradeHoldIfNeeded h later).keeps

theorem keeps_waitForFenceIfNeeded (h : Handler) (later : Option View) :
    Outcome.Keeps h (h.waitForFenceIfNeeded later) := (held_waitForFenceIfNeeded h later).keeps

theorem keeps_waitForReady (h : Handler) (ended : Error) (sent : List Message) :
    Outcome.Keeps h (h.waitForReady ended sent) := by
  fun_cases Handler.waitForReady h ended sent
  all_goals first | exact ⟨rfl,rfl⟩ | exact fun _ => ⟨rfl,rfl⟩ | exact keeps_sever h _ rfl

theorem keeps_waitForEach (ended : Error) (n : ℕ) (h : Handler) (sent : List Message) :
    Outcome.Keeps h (h.waitForEach ended n sent) := by
  induction n generalizing h sent with
  | zero => exact ⟨rfl,rfl⟩
  | succ n ih => exact (keeps_waitForReady h ended sent).andThen fun h' rest _ => ih h' rest

theorem keeps_migrate (h : Handler) (target : SocketAddr) (a : Attempt) :
    Outcome.Keeps h (h.migrate target a) := by
  rw [Handler.migrate]
  split
  · exact fun _ => ⟨rfl,rfl⟩
  · refine Outcome.Keeps.andThen ?_ fun h' rest _ =>
      (keeps_waitForEach a.ended _ h' rest).andThen fun h' rest _ =>
        (keeps_waitForEach a.ended _ h' rest).andThen fun h' rest _ => ⟨rfl,rfl⟩
    exact (keeps_waitForReady {h with backendAddr := some target} a.ended a.sent).of_same ⟨rfl,rfl⟩

theorem keeps_leave (h : Handler) (target : SocketAddr) (a : Attempt) :
    Outcome.Keeps h (h.leave target a) := by
  fun_cases Handler.leave h target a
  case case5 => exact keeps_migrate h target a
  all_goals first | exact keeps_sever h _ rfl | exact fun he => by cases he

theorem keeps_handleLeaderChange (h : Handler) (lost : Bool) (a : Attempt) :
    Outcome.Keeps h (h.handleLeaderChange lost a) := by
  have hh : Outcome.Keeps h ({h with view := a.view}.holdWithoutRoute a) :=
    (held_holdWithoutRoute _ a).keeps.of_same ⟨rfl,rfl⟩
  refine hh.andThen fun h' _ _ => ?_
  dsimp only
  split
  · cases lost with
    | false => exact ⟨rfl,rfl⟩
    | true => exact fun _ => ⟨rfl,rfl⟩
  · split_ifs
    · refine Outcome.Keeps.andThen ?_ fun h'' moved _ => ⟨rfl,rfl⟩
      exact (keeps_leave {h' with view := a.routed} _ a).of_same ⟨rfl,rfl⟩
    · exact ⟨rfl,rfl⟩

def Moved.Started (m : Moved) : Prop :=
  ∃ front status back, m.sent = front++.readyForQuery status::(back++m.rest)

theorem readUntilReady_ready {refused : Option Bytes}
    (hr : readUntilReady ended refused sent = .ok (.ready,rest)) :
    ∃ front status, sent = front++.readyForQuery status::rest := by
  induction sent generalizing refused with
  | nil =>
    cases refused with
    | none => cases hr
    | some sqlstate =>
      rw [readUntilReady] at hr
      split_ifs at hr
      cases hr
  | cons m sent ih =>
    have hs : ∀ refused, readUntilReady ended refused sent = .ok (.ready,rest) →
        ∃ front status, m::sent = front++.readyForQuery status::rest := by
      intro refused hr
      obtain ⟨front,status,rfl⟩ := ih hr
      exact ⟨m::front,status,rfl⟩
    cases m with
    | authentication code =>
      rw [readUntilReady] at hr
      split_ifs at hr
      · cases hr
      · exact hs _ hr
    | readyForQuery status =>
      cases refused with
      | some sqlstate => cases hr
      | none =>
        cases hr
        exact ⟨[],status,rfl⟩
    | _ => exact hs _ hr

theorem waitForReady_eq_ok (hr : (h.waitForReady ended sent).2 = .ok rest) :
    ∃ front status, sent = front++.readyForQuery status::rest := by
  revert hr
  fun_cases Handler.waitForReady h ended sent <;> intro hr <;> cases hr
  next hre => exact readUntilReady_ready hre

theorem waitForEach_eq_ok {n : ℕ} (hr : (h.waitForEach ended n sent).2 = .ok rest) :
    ∃ front, sent = front++rest := by
  induction n generalizing h sent with
  | zero =>
    cases hr
    exact ⟨[],rfl⟩
  | succ n ih =>
    rw [Handler.waitForEach] at hr
    obtain ⟨rest₁,hf,heq⟩ := andThen_eq_ok hr
    obtain ⟨front₁,status,rfl⟩ := waitForReady_eq_ok hf
    rw [heq] at hr
    obtain ⟨front₂,rfl⟩ := ih hr
    exact ⟨front₁++.readyForQuery status::front₂,by simp⟩

theorem migrate_started {target : SocketAddr} {m : Moved} (hr : (h.migrate target a).2 = .ok m) :
    m.sent = a.sent ∧ m.Started := by
  rw [Handler.migrate] at hr
  split at hr
  · cases hr
  · obtain ⟨rest₁,hre,heq⟩ := andThen_eq_ok hr
    rw [heq] at hr
    obtain ⟨rest₂,hl,heq⟩ := andThen_eq_ok hr
    rw [heq] at hr
    obtain ⟨rest₃,hp,heq⟩ := andThen_eq_ok hr
    rw [heq] at hr
    cases hr
    obtain ⟨front,status,hs⟩ := waitForReady_eq_ok hre
    obtain ⟨listens,rfl⟩ := waitForEach_eq_ok hl
    obtain ⟨statements,rfl⟩ := waitForEach_eq_ok hp
    refine ⟨rfl,front,status,listens++statements,?_⟩
    rw [hs,append_assoc]

theorem leave_eq_ok {target : SocketAddr} {m : Moved} (hr : (h.leave target a).2 = .ok m) :
    h.state.isMigratable ∧ (h.migrate target a).2 = .ok m := by
  revert hr
  fun_cases Handler.leave h target a <;> intro hr
  case case5 hm => exact ⟨by simpa using hm,hr⟩
  all_goals cases hr

def Moved.From (m : Moved) (a : Attempt) : Prop := m.sent = a.sent ∧ m.Started

theorem handleLeaderChange_moved {lost : Bool} {m : Moved}
    (hr : (h.handleLeaderChange lost a).2 = .ok (some m)) :
    m.From a ∧ (lost ∨ ∃ target, a.routed.route = some target ∧ h.backendAddr ≠ some target) := by
  rw [Handler.handleLeaderChange] at hr
  obtain ⟨_,-,heq⟩ := andThen_eq_ok hr
  rw [heq] at hr
  have ha := (held_holdWithoutRoute {h with view := a.view} a).1
  dsimp only at hr ha
  split at hr
  · cases lost <;> cases hr
  · next target ht =>
    split_ifs at hr with hn
    · obtain ⟨m',hl,heq⟩ := andThen_eq_ok hr
      rw [heq] at hr
      cases hr
      refine ⟨migrate_started (leave_eq_ok hl).2,?_⟩
      rw [needsMigration,ha,Bool.or_eq_true,decide_eq_true_eq] at hn
      exact hn.imp id fun hne => ⟨target,ht,hne⟩
    · cases hr

theorem handleLeaderChange_recoverable (he : (h.handleLeaderChange false a).2 = .error e)
    (hr : reconnectMayRecover e) :
    ∃ target, a.routed.route = some target ∧ h.backendAddr ≠ some target := by
  obtain ⟨ha,hf⟩ := held_holdWithoutRoute {h with view := a.view} a
  rw [Handler.handleLeaderChange,Outcome.andThen] at he
  dsimp only at he ha
  split at he
  · split at he
    · cases he
    · next target ht =>
      split_ifs at he with hn
      rw [needsMigration,ha,Bool.false_or,decide_eq_true_eq] at hn
      exact ⟨target,ht,hn⟩
  · next hh =>
    cases he
    simp only [hh] at hf
    cases hf
    cases hr

theorem keeps_thaw (h : Handler) (a : Attempt) : Outcome.Keeps h (h.thaw a) := by
  rw [Handler.thaw,Handler.holdForUpgradeFreezeAfterDisconnect]
  split_ifs
  · exact ⟨rfl,rfl⟩
  · exact keeps_sever h _ rfl
  · exact ⟨rfl,rfl⟩

theorem recoverLostBackend_ok (giveUp : GiveUp) (attempts : List Attempt) (h : Handler)
    (hr : (h.recoverLostBackend giveUp attempts).2 = .ok r) :
    Handler.Same h (h.recoverLostBackend giveUp attempts).1 ∧
      ∀ m, r = some m → ∃ a ∈ attempts, m.From a := by
  induction attempts generalizing h with
  | nil => cases hr
  | cons a attempts ih =>
    have ht := keeps_thaw h a
    have hc := keeps_handleLeaderChange (h.thaw a).1 true a
    rw [Handler.recoverLostBackend] at hr ⊢
    obtain ⟨u,hok,heq⟩ := andThen_eq_ok hr
    rw [Outcome.Keeps,hok] at ht
    rw [heq] at hr ⊢
    rw [Outcome.Keeps] at hc
    dsimp only at hr ⊢
    split at hr
    · next hm =>
      cases hr
      simp only [hm] at hc ⊢
      refine ⟨ht.trans hc,?_⟩
      rintro m rfl
      exact ⟨a,mem_cons_self,(handleLeaderChange_moved hm).1⟩
    · next e he =>
      simp only [he] at hc ⊢
      split_ifs at hr ⊢ with hre
      · obtain ⟨hs,hf⟩ := ih _ hr
        refine ⟨(ht.trans (hc hre)).trans hs,fun m hm => ?_⟩
        obtain ⟨a',hme,hf⟩ := hf m hm
        exact ⟨a',mem_cons_of_mem _ hme,hf⟩

theorem rerouteLostBackend_ok {giveUp : GiveUp}
    (hr : (h.rerouteLostBackend giveUp attempts).2 = .ok r) :
    Handler.Same h (h.rerouteLostBackend giveUp attempts).1 ∧
      ∀ m, r = some m → ∃ a ∈ attempts, m.From a := by
  rw [Handler.rerouteLostBackend] at hr ⊢
  split at hr
  · next hm =>
    cases hr
    exact recoverLostBackend_ok giveUp attempts h hm
  · split_ifs at hr
    cases hr

theorem handleBackendDisconnect_ok {giveUp : GiveUp}
    (hr : (h.handleBackendDisconnect giveUp attempts).2 = .ok r) :
    Handler.Same h (h.handleBackendDisconnect giveUp attempts).1 ∧
      ∀ m, r = some m → ∃ a ∈ attempts, m.From a := by
  rw [Handler.handleBackendDisconnect] at hr ⊢
  by_cases hm : h.state.isMigratable
  · rw [if_pos hm] at hr ⊢
    exact rerouteLostBackend_ok hr
  · rw [if_neg hm] at hr
    cases hr

theorem moveToRoute_ok {t : Turn} (hr : (h.moveToRoute t).2 = .ok r) :
    Handler.Same h (h.moveToRoute t).1 ∧ ∀ m, r = some m →
      (∃ a ∈ t.attempt::t.attempts, m.From a) ∧
        ∃ target, t.attempt.routed.route = some target ∧ h.backendAddr ≠ some target := by
  have hk := keeps_handleLeaderChange h false t.attempt
  rw [Outcome.Keeps] at hk
  rw [Handler.moveToRoute] at hr ⊢
  split at hr
  · next hmo =>
    cases hr
    simp only [hmo] at hk ⊢
    refine ⟨hk,?_⟩
    rintro m rfl
    have hm := handleLeaderChange_moved hmo
    exact ⟨⟨t.attempt,mem_cons_self,hm.1⟩,hm.2.resolve_left (by simp)⟩
  · next e he =>
    simp only [he] at hk ⊢
    split_ifs at hr ⊢ with hre
    have ht := handleLeaderChange_recoverable he hre
    have hro := rerouteLostBackend_ok hr
    refine ⟨(hk hre).trans hro.1,fun m hm => ⟨?_,ht⟩⟩
    obtain ⟨a,hme,hf⟩ := hro.2 m hm
    exact ⟨a,mem_cons_of_mem _ hme,hf⟩

theorem followRoute_ok {t : Turn} (hr : (h.followRoute t).2 = .ok r) :
    Handler.Same h (h.followRoute t).1 ∧ ∀ m, r = some m →
      (∃ a ∈ t.attempt::t.attempts, m.From a) ∧
        ∃ target, t.attempt.routed.route = some target ∧ h.backendAddr ≠ some target := by
  have hs : ∀ m, (none : Option Moved) = some m → (∃ a ∈ t.attempt::t.attempts, m.From a) ∧
      ∃ target, t.attempt.routed.route = some target ∧ h.backendAddr ≠ some target := by
    intro m hm
    cases hm
  rw [Handler.followRoute] at hr ⊢
  split_ifs at hr ⊢
  · cases hr
    exact ⟨⟨rfl,rfl⟩,hs⟩
  · exact moveToRoute_ok hr
  · cases hr
    exact ⟨⟨rfl,rfl⟩,hs⟩
  · obtain ⟨_,hok,heq⟩ := andThen_eq_ok hr
    rw [heq] at hr ⊢
    rw [Handler.awaitRoute] at hok hr ⊢
    cases hf : t.found.filter fun v => v.route.isSome with
    | none =>
      rw [hf] at hok
      cases hok
    | some v =>
      rw [hf] at hr
      have hmo := moveToRoute_ok hr
      exact ⟨⟨hmo.1.state,hmo.1.told⟩,hmo.2⟩

end Specifications

end Failover
end PgBattery
