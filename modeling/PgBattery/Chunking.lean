import PgBattery.Packets
import PgBattery.CancelRouting

/-! The proxy loop of one session at the level of socket reads: bytes are buffered, the whole
messages among them are checked, tracked and forwarded, and the rest waits for the next read. -/
namespace PgBattery
namespace Chunking
open Postcard Packets Analysis Gateway Failover CancelRouting TransitionSystem List

def maxGatewayBufferSize : ℕ := 16*1024*1024
def maxPreAuthMessage : ℕ := 65535+1024

inductive Side
  | client | backend
  deriving DecidableEq

structure Read where
  side : Side
  bytes : Bytes
  deriving DecidableEq

/-- How the exchange with a backend ends: the client closed, the handler failed, the backend is gone,
or the session's route is elsewhere. -/
inductive Ending
  | closed
  | failed (e : Failover.Error)
  | lost
  | departed
  deriving DecidableEq

structure Session where
  handler : Handler
  backendKey : Option BackendKey := none
  backendKeys : BackendKeys := fun _ => none
  bytesSent : ℕ := 0
  bytesReceived : ℕ := 0
  toBackend : Bytes := []
  toClient : Bytes := []
  ended : Option Ending := none

structure Loop where
  session : Session
  clientBuf : Bytes := []
  backendBuf : Bytes := []

/-- A client message; a type that no code looks at is handled as Flush is. -/
def frontend (msg : Bytes) : Frontend :=
  match msg.head? with
  | some 81 => .query (msg.drop 5)
  | some 80 => .parse msg
  | some 66 => .bind
  | some 68 => .describe
  | some 69 => .execute
  | some 67 => .close msg
  | some 83 => .sync
  | some 70 => .functionCall
  | some 100 => .copyData
  | some 99 => .copyDone
  | some 102 => .copyFail
  | some 112 => .password
  | _ => .flush

def isTerminate (msg : Bytes) : Bool := msg.head? = some 88

def transactionStatus (b : U8) : TransactionStatus :=
  if b = 84 then .inTransaction else if b = 69 then .failed else .idle

def backend (msg : Bytes) : Backend :=
  match msg.head? with
  | some 90 => match msg.drop 5 with
    | status::_ => .readyForQuery (transactionStatus status)
    | [] => .other
  | some 49 => .parseComplete
  | some 51 => .closeComplete
  | some 69 => .errorResponse
  | some 71 => .copyInResponse
  | some 72 => .copyOutResponse
  | some 87 => .copyBothResponse
  | _ => .other

def isBackendKeyData (msg : Bytes) : Bool := msg.head? = some 75

def Session.fail (s : Session) (h : Handler) (e : Failover.Error) : Session :=
  {s with handler := h.announce e, ended := some (.failed e)}

def Session.sever (s : Session) (h : Handler) (reason : String) : Session :=
  s.fail (h.sendFailoverErrorResponse reason) .fenced

section Client
variable (sql : Parser) (lease : LeaseView)

/-- How large a client message may be: until the backend has answered, the client authenticates. -/
def maxMessage (s : ConnectionState) : ℕ :=
  if 0 < s.queriesProcessed then maxGatewayBufferSize else maxPreAuthMessage

structure Pass where
  batch : ClientBatch
  extendedProtocolSeen : Bool
  pending : Bytes := []
  leaseDeadline : Bool := false

inductive Stop
  | drained
  | terminated
  | invalid (length : ℕ)
  | stale
  | expired

def Pass.see (p : Pass) (msg : Bytes) : Pass :=
  {p with extendedProtocolSeen := p.extendedProtocolSeen || isExtendedFrontendMessage (frontend msg)}

def Pass.forward (p : Pass) (msg : Bytes) : Pass :=
  {p with
    batch := p.batch.forward sql (frontend msg)
    pending := p.pending++msg
    leaseDeadline := p.leaseDeadline || lease.isLeader}

/-- Process the complete messages; a Terminate is neither fenced nor forwarded, and what follows it
stays in the buffer. -/
def clientMessages (max : ℕ) (stale : Bool) : ℕ → Pass → Bytes → Pass × Bytes × Stop
  | 0, p, buf => (p,buf,.drained)
  | n+1, p, buf => match split max buf with
    | .error length => (p,buf,.invalid length)
    | .ok none => (p,buf,.drained)
    | .ok (some (msg,rest)) =>
      let p := p.see msg
      if isTerminate msg then (p,rest,.terminated)
      else if stale then (p,rest,.stale)
      else if lease.isLeader && lease.expired then (p,rest,.expired)
      else clientMessages max stale n (p.forward sql lease msg) rest

def Pass.handler (p : Pass) (h : Handler) : Handler :=
  {h with state := p.batch.state, extendedProtocolSeen := p.extendedProtocolSeen}

def Session.write (s : Session) (p : Pass) : Session :=
  {s with handler := p.handler s.handler, toBackend := s.toBackend++p.pending}

def Session.commit (s : Session) (p : Pass) : Session :=
  {s with
    handler := {s.handler with state := commitClientBatch p.batch}
    bytesSent := s.bytesSent+p.pending.length}

def Session.pass (s : Session) : Pass :=
  {batch := {state := s.handler.state}, extendedProtocolSeen := s.handler.extendedProtocolSeen}

def Session.settle (s : Session) (p : Pass) : Stop → Session
  | .drained =>
    let s := s.write p
    if p.leaseDeadline && lease.expiredAfterSend then
      s.sever s.handler "pgbattery: leader lease expired during message send"
    else s.commit p
  | .terminated => (s.write p).commit p
  | .invalid length => s.fail (p.handler s.handler)
      (.protocol s!"Invalid packet length: {length} exceeds maximum")
  | .stale => s.sever (p.handler s.handler)
      "pgbattery: leader changed; reconnect to reach the new primary"
  | .expired => s.sever (p.handler s.handler)
      "pgbattery: leader lease expired; query rejected to prevent split-brain"

def processClientData (s : Session) (buf : Bytes) : Session × Bytes :=
  if s.handler.state.proxyMode = .sslPassthrough then
    ({s with toBackend := s.toBackend++buf, bytesSent := s.bytesSent+buf.length},[])
  else
    let r := clientMessages sql lease (maxMessage s.handler.state)
      (backendStale s.handler.view.fence s.handler.view.leader s.handler.backendAddr) buf.length
      s.pass buf
    (s.settle lease r.1 r.2.2,r.2.1)

def handleClientReadResult (l : Loop) (bytes : Bytes) : Loop :=
  if bytes = [] then {l with session := {l.session with ended := some .closed}}
  else
    let buf := l.clientBuf++bytes
    if maxGatewayBufferSize < buf.length then
      {l with
        session := l.session.fail l.session.handler (.protocol
          s!"Query too large: {buf.length} bytes exceeds maximum of {maxGatewayBufferSize} bytes")
        clientBuf := buf}
    else
      let (s,rest) := processClientData sql lease l.session buf
      {l with session := s, clientBuf := rest}

end Client

section Backend

/-- A BackendKeyData message that is forwarded gives the client its key. -/
def Session.observeKey (s : Session) (msg : Bytes) : Session :=
  if isBackendKeyData msg then
    let (key,t) := handleBackendKeyDataMessage s.backendKey s.handler.backendAddr s.backendKeys msg true
    {s with backendKey := key, backendKeys := t}
  else s

/-- Scan the complete messages: the session, what the batch has gathered, the bytes scanned, and
those left or the length that was refused. -/
def backendMessages : ℕ → Session → BackendDataBatch → Bytes → Bytes →
    Session × BackendDataBatch × Bytes × Except ℕ Bytes
  | 0, s, b, span, buf => (s,b,span,.ok buf)
  | n+1, s, b, span, buf => match split maxGatewayBufferSize buf with
    | .error length => (s,b,span,.error length)
    | .ok none => (s,b,span,.ok buf)
    | .ok (some (msg,rest)) =>
      backendMessages n (s.observeKey msg) (observeBackendMessage b (backend msg)) (span++msg) rest

def Session.applyBackendDataBatch (s : Session) (b : BackendDataBatch) (span : Bytes) : Session :=
  {s with
    handler := {s.handler with state := Gateway.applyBackendDataBatch s.handler.state b}
    bytesReceived := s.bytesReceived+span.length
    toClient := s.toClient++span}

def processBackendData (s : Session) (buf : Bytes) : Session × Bytes :=
  if s.handler.state.proxyMode = .sslPassthrough then
    ({s with toClient := s.toClient++buf, bytesReceived := s.bytesReceived+buf.length},[])
  else match backendMessages buf.length s {} [] buf with
    | (s,b,span,.ok rest) => (s.applyBackendDataBatch b span,rest)
    | (s,_,_,.error length) => (s.fail s.handler
        (.protocol s!"Invalid backend packet length: {length} exceeds maximum"),buf)

def handleBackendReadResult (l : Loop) (bytes : Bytes) : Loop :=
  if bytes = [] then {l with session := {l.session with ended := some .lost}}
  else
    let buf := l.backendBuf++bytes
    if maxGatewayBufferSize < buf.length then
      {l with
        session := l.session.fail l.session.handler (.protocol
          s!"Backend response too large: {buf.length} bytes exceeds maximum of {maxGatewayBufferSize} bytes")
        backendBuf := buf}
    else
      let (s,rest) := processBackendData l.session buf
      {l with session := s, backendBuf := rest}

end Backend

/-- The two holds at the top of the loop; the view is fixed, so one that holds does not end. -/
def held (h : Handler) : Outcome Unit :=
  (h.waitForUpgradeHoldIfNeeded none).andThen fun h _ => h.waitForFenceIfNeeded none

/-- The checks at the top of the loop; no route comes while the session waits for one. -/
def Session.top (s : Session) : Session :=
  if s.ended.isSome then s
  else match (held s.handler).2 with
    | .error e => s.fail (held s.handler).1 e
    | .ok () =>
      let settled := s.handler.state.txStatus = .idle && !s.handler.state.responsePending
      if s.handler.view.route = s.handler.backendAddr then s
      else if s.handler.view.route ≠ none then {s with ended := some .departed}
      else if !settled then s
      else s.fail (s.handler.sendFailoverErrorResponse
        "pgbattery: no primary accepted sessions in time; reconnect") .noLeader

def Loop.start (s : Session) : Loop := {session := s.top}

def Loop.next (sql : Parser) (lease : LeaseView) (l : Loop) (r : Read) : Loop :=
  if l.session.ended.isSome then l
  else
    let l := match r.side with
      | .client => handleClientReadResult sql lease l r.bytes
      | .backend => handleBackendReadResult l r.bytes
    {l with session := l.session.top}

def step (sql : Parser) (lease : LeaseView) (l : Loop) (r : Read) : Option Loop :=
  some (l.next sql lease r)

def stream (side : Side) (reads : List Read) : Bytes :=
  (reads.filter fun r => r.side = side).flatMap Read.bytes

def Valid (bytes : Bytes) : Prop := (framed maxGatewayBufferSize bytes).isOk = true

/-- The whole messages in the order in which the reads complete them; `c` and `b` are the bytes
already buffered. -/
def completions : Bytes → Bytes → List Read → List (Side × Bytes)
  | _, _, [] => []
  | c, b, ⟨.client,bytes⟩::reads => match framed maxGatewayBufferSize (c++bytes) with
    | .ok (l,rest) => l.map (Side.client,·)++completions rest b reads
    | .error _ => []
  | c, b, ⟨.backend,bytes⟩::reads => match framed maxGatewayBufferSize (b++bytes) with
    | .ok (l,rest) => l.map (Side.backend,·)++completions c rest reads
    | .error _ => []

/-- Which stream each whole message belongs to, in the order in which the reads complete them. -/
def order (reads : List Read) : List Side := (completions [] [] reads).map Prod.fst

/-- Two ways of cutting the same streams, whose messages are all of valid length, into reads. -/
structure Recut (r₁ r₂ : List Read) : Prop where
  nonempty₁ : ∀ r ∈ r₁, r.bytes ≠ []
  nonempty₂ : ∀ r ∈ r₂, r.bytes ≠ []
  streams : ∀ side, stream side r₁ = stream side r₂
  valid : ∀ side, Valid (stream side r₁)

/-- Nothing follows a Terminate. -/
def terminateLast : List Bytes → Bytes → Bool
  | [], _ => true
  | msg::l, rest => if isTerminate msg then l = [] && rest = [] else terminateLast l rest

/-- A read leaves no more than the maximum in its buffer; until the backend has answered, no client
message claims more than authentication needs; and nothing follows a Terminate in the buffer. -/
def Meets (l : Loop) (r : Read) : Prop :=
  l.session.ended = none → match r.side with
    | .client =>
      (l.clientBuf++r.bytes).length ≤ maxGatewayBufferSize ∧
        (l.session.handler.state.queriesProcessed = 0 →
          (framed maxPreAuthMessage (l.clientBuf++r.bytes)).isOk = true) ∧
        ∀ q ∈ (framed maxGatewayBufferSize (l.clientBuf++r.bytes)).toOption, terminateLast q.1 q.2 = true
    | .backend => (l.backendBuf++r.bytes).length ≤ maxGatewayBufferSize

instance instDecidableMeets (l : Loop) (r : Read) : Decidable (Meets l r) := by
  unfold Meets
  cases r.side <;> infer_instance

section Message
variable (sql : Parser) (lease : LeaseView)

def Session.seen (s : Session) (msg : Bytes) : Handler :=
  {s.handler with
    extendedProtocolSeen :=
      s.handler.extendedProtocolSeen || isExtendedFrontendMessage (frontend msg)}

def Session.clientMessage (s : Session) (msg : Bytes) : Session :=
  if isTerminate msg then s
  else if lease.isLeader && lease.expired then s.sever (s.seen msg)
    "pgbattery: leader lease expired; query rejected to prevent split-brain"
  else {s with
    handler := {s.seen msg with state := forwardOne sql s.handler.state (frontend msg)}
    bytesSent := s.bytesSent+msg.length
    toBackend := s.toBackend++msg}

def Session.backendMessage (s : Session) (msg : Bytes) : Session :=
  {s.observeKey msg with
    handler := {s.handler with state := observeOne s.handler.state (backend msg)}
    bytesReceived := s.bytesReceived+msg.length
    toClient := s.toClient++msg}

def Session.message (s : Session) (m : Side × Bytes) : Session :=
  if s.ended.isSome then s
  else match m.1 with
    | .client => s.clientMessage sql lease m.2
    | .backend => s.backendMessage m.2

theorem foldl_message_ended {s : Session} (h : s.ended.isSome) (l : List (Side × Bytes)) :
    l.foldl (Session.message sql lease) s = s := by
  induction l with
  | nil => rfl
  | cons m l ih => rw [foldl_cons,Session.message,if_pos h,ih]

end Message

section ClientPass
variable {sql : Parser} {lease : LeaseView} {s : Session} {p : Pass} {max n : ℕ}
  {buf rest : Bytes} {l : List Bytes}

def Session.committed (s : Session) (p : Pass) : Session := (s.write p).commit p

theorem committed_pass (s : Session) : s.committed s.pass = s := by
  simp [Session.committed,Session.write,Session.commit,Session.pass,Pass.handler,commitClientBatch]

theorem isExtended_terminate {msg : Bytes} (h : isTerminate msg) :
    isExtendedFrontendMessage (frontend msg) = false := by
  rw [isTerminate,decide_eq_true_eq] at h
  simp [frontend,h,isExtendedFrontendMessage]

theorem see_terminate {msg : Bytes} (h : isTerminate msg) : p.see msg = p := by
  simp [Pass.see,isExtended_terminate h]

theorem committed_forward {msg : Bytes} (ht : isTerminate msg = false)
    (he : (lease.isLeader && lease.expired) = false) :
    s.committed ((p.see msg).forward sql lease msg) = (s.committed p).clientMessage sql lease msg := by
  have hb := commit_forward sql p.batch (frontend msg)
  simp only [Session.committed,Session.write,Session.commit,Pass.forward,Pass.see,Pass.handler,
    Session.clientMessage,Session.seen,ht,he,hb]
  simp [Nat.add_assoc]

theorem clientMessages_drains (he : (lease.isLeader && lease.expired) = false)
    (h : Drains max buf l rest) (hn : buf.length ≤ n) (hl : terminateLast l rest) :
    ∃ p' stop, clientMessages sql lease max false n p buf = (p',rest,stop) ∧
      (stop = .drained ∨ stop = .terminated) ∧
      (p'.leaseDeadline && lease.expired) = (p.leaseDeadline && lease.expired) ∧
      s.committed p' = l.foldl (Session.clientMessage sql lease) (s.committed p) := by
  induction h generalizing n p with
  | stop hs =>
    cases n with
    | zero => exact ⟨p,.drained,rfl,.inl rfl,rfl,rfl⟩
    | succ n =>
      refine ⟨p,.drained,?_,.inl rfl,rfl,rfl⟩
      simp only [clientMessages,hs]
  | @more buf rest₁ last msg l hs hd ih =>
    have hle := length_of_split hs
    cases n with
    | zero => omega
    | succ n =>
      by_cases ht : isTerminate msg
      · simp only [terminateLast,ht,if_true,Bool.and_eq_true,decide_eq_true_eq] at hl
        obtain ⟨rfl,rfl⟩ := hl
        cases hd with
        | stop hs' =>
          refine ⟨p,.terminated,?_,.inr rfl,rfl,?_⟩
          · simp only [clientMessages,hs,ht,if_true,see_terminate ht]
          · simp [Session.clientMessage,ht]
      · have htf := Bool.eq_false_of_not_eq_true ht
        simp only [terminateLast,htf] at hl
        obtain ⟨p',stop,hp,hst,hd,hc⟩ := ih (p := (p.see msg).forward sql lease msg) (n := n)
          (by omega) hl
        refine ⟨p',stop,?_,hst,?_,?_⟩
        · simp only [clientMessages,hs,htf,he]
          exact hp
        · rw [hd,Pass.forward,Bool.and_or_distrib_right,he,Bool.or_false]
          rfl
        · rw [hc,committed_forward htf he,foldl_cons]

theorem clientMessage_ended {msg : Bytes} (he : (lease.isLeader && lease.expired) = false) :
    (s.clientMessage sql lease msg).ended = s.ended := by
  simp only [Session.clientMessage,he]
  split <;> rfl

theorem foldl_clientMessage (he : (lease.isLeader && lease.expired) = false) (hs : s.ended = none)
    (l : List Bytes) :
    (l.map (Side.client,·)).foldl (Session.message sql lease) s =
      l.foldl (Session.clientMessage sql lease) s := by
  induction l generalizing s with
  | nil => rfl
  | cons msg l ih =>
    have ho : s.message sql lease (.client,msg) = s.clientMessage sql lease msg := by
      simp [Session.message,hs]
    rw [map_cons,foldl_cons,foldl_cons,ho,ih ((clientMessage_ended he).trans hs)]

theorem clientMessages_expired (he : (lease.isLeader && lease.expired))
    (h : Drains max buf l rest) (hl : terminateLast l rest) :
    (l = [] ∨ ∃ msg, l = [msg] ∧ isTerminate msg) ∧
        (∃ stop, clientMessages sql lease max false buf.length p buf = (p,rest,stop) ∧
          (stop = .drained ∨ stop = .terminated)) ∨
      ∃ msg l' rest', l = msg::l' ∧ isTerminate msg = false ∧
        clientMessages sql lease max false buf.length p buf = (p.see msg,rest',.expired) := by
  cases h with
  | stop hs =>
    refine .inl ⟨.inl rfl,.drained,?_,.inl rfl⟩
    cases buf.length with
    | zero => rfl
    | succ n => simp only [clientMessages,hs]
  | @more _ rest₁ _ msg l' hs hd =>
    obtain ⟨n,hn⟩ : ∃ n, buf.length = n+1 := ⟨buf.length-1,by have := length_of_split hs; omega⟩
    rw [hn]
    by_cases ht : isTerminate msg
    · simp only [terminateLast,ht,if_true,Bool.and_eq_true,decide_eq_true_eq] at hl
      obtain ⟨rfl,rfl⟩ := hl
      cases hd with
      | stop hs' =>
        refine .inl ⟨.inr ⟨msg,rfl,ht⟩,.terminated,?_,.inr rfl⟩
        simp only [clientMessages,hs,ht,if_true,see_terminate ht]
    · have htf := Bool.eq_false_of_not_eq_true ht
      refine .inr ⟨msg,l',rest₁,rfl,htf,?_⟩
      simp only [clientMessages,hs,htf,he,if_true]
      rfl

theorem processClientData_eq (hs : s.ended = none) (hm : s.handler.state.proxyMode ≠ .sslPassthrough)
    (hr : s.handler.view.route = s.handler.backendAddr)
    (hle : lease.expiredAfterSend = lease.expired)
    (h : Drains (maxMessage s.handler.state) buf l rest) (hla : terminateLast l rest) :
    (processClientData sql lease s buf).1 =
        (l.map (Side.client,·)).foldl (Session.message sql lease) s ∧
      ((processClientData sql lease s buf).1.ended = none →
        (processClientData sql lease s buf).2 = rest) := by
  have hsta : backendStale s.handler.view.fence s.handler.view.leader s.handler.backendAddr = false := by
    rw [backendStale,decide_eq_false_iff_not,not_not]
    exact hr
  simp only [processClientData,if_neg hm,hsta]
  cases he : lease.isLeader && lease.expired with
  | false =>
    obtain ⟨p,stop,hp,hst,hd,hc⟩ := @clientMessages_drains sql lease s s.pass _ _ _ _ _ he h le_rfl
      hla
    rw [committed_pass] at hc
    rw [hp,foldl_clientMessage he hs,← hc]
    refine ⟨?_,fun _ => rfl⟩
    rcases hst with rfl | rfl
    · have hh : (p.leaseDeadline && lease.expiredAfterSend) = false := by
        rw [hle,hd]
        rfl
      simp only [Session.settle,hh]
      rfl
    · rfl
  | true =>
    obtain ⟨hl,stop,hp,hst⟩ | ⟨msg,l',rest',rfl,ht,hp⟩ :=
      @clientMessages_expired sql lease s.pass _ _ _ _ he h hla
    · rw [hp]
      refine ⟨?_,fun _ => rfl⟩
      have hk : s.settle lease s.pass stop = s := by
        rcases hst with rfl | rfl
        · exact committed_pass s
        · exact committed_pass s
      rw [hk]
      rcases hl with rfl | ⟨msg,rfl,ht⟩
      · rfl
      · simp [Session.message,hs,Session.clientMessage,ht]
    · rw [hp]
      have hms : s.message sql lease (.client,msg) = s.settle lease (s.pass.see msg) .expired := by
        simp only [Session.message,hs,Session.clientMessage,ht,he]
        rfl
      rw [map_cons,foldl_cons,hms,foldl_message_ended sql lease rfl]
      exact ⟨rfl,fun hen => nomatch hen⟩

end ClientPass

section BackendPass
variable {sql : Parser} {lease : LeaseView} {s : Session} {buf rest span : Bytes} {l : List Bytes}

def Session.received (s : Session) (state : ConnectionState) (span : Bytes) : Session :=
  {s with
    handler := {s.handler with state := state}
    bytesReceived := s.bytesReceived+span.length
    toClient := s.toClient++span}

theorem observeKey_handler (msg : Bytes) : (s.observeKey msg).handler = s.handler := by
  unfold Session.observeKey
  split_ifs <;> rfl

theorem observeKey_ended (msg : Bytes) : (s.observeKey msg).ended = s.ended := by
  unfold Session.observeKey
  split_ifs <;> rfl

theorem observeKey_received (state : ConnectionState) (msg : Bytes) :
    (s.received state span).observeKey msg = (s.observeKey msg).received state span := by
  unfold Session.observeKey
  split_ifs <;> rfl

theorem foldl_observeKey_received (state : ConnectionState) :
    l.foldl Session.observeKey (s.received state span) =
      (l.foldl Session.observeKey s).received state span := by
  induction l generalizing s with
  | nil => rfl
  | cons msg l ih => rw [foldl_cons,foldl_cons,observeKey_received,ih]

theorem foldl_observeKey_handler : (l.foldl Session.observeKey s).handler = s.handler := by
  induction l generalizing s with
  | nil => rfl
  | cons msg l ih => rw [foldl_cons,ih,observeKey_handler]

theorem backendMessage_eq (msg : Bytes) : s.backendMessage msg =
    (s.observeKey msg).received (observeOne s.handler.state (backend msg)) msg := by
  unfold Session.backendMessage Session.observeKey
  split_ifs <;> rfl

theorem foldl_backendMessage (s : Session) (l : List Bytes) : l.foldl Session.backendMessage s =
    (l.foldl Session.observeKey s).received ((l.map backend).foldl observeOne s.handler.state)
      l.flatten := by
  induction l generalizing s with
  | nil => simp [Session.received]
  | cons msg l ih =>
    rw [foldl_cons,ih,backendMessage_eq,foldl_observeKey_received]
    simp [Session.received,Nat.add_assoc]

theorem backendMessages_drains {n : ℕ} {b : BackendDataBatch}
    (h : Drains maxGatewayBufferSize buf l rest) (hn : buf.length ≤ n) :
    backendMessages n s b span buf = (l.foldl Session.observeKey s,
      (l.map backend).foldl observeBackendMessage b,span++l.flatten,.ok rest) := by
  induction h generalizing n s b span with
  | stop hs =>
    cases n with
    | zero => simp [backendMessages]
    | succ n => simp [backendMessages,hs]
  | @more buf rest₁ last msg l hs hd ih =>
    have hl := length_of_split hs
    cases n with
    | zero => omega
    | succ n =>
      simp only [backendMessages,hs]
      rw [ih (by omega)]
      simp

theorem backendMessage_ended (msg : Bytes) : (s.backendMessage msg).ended = s.ended := by
  rw [backendMessage_eq]
  exact observeKey_ended msg

theorem foldl_message_backend (hs : s.ended = none) (l : List Bytes) :
    (l.map (Side.backend,·)).foldl (Session.message sql lease) s = l.foldl Session.backendMessage s := by
  induction l generalizing s with
  | nil => rfl
  | cons msg l ih =>
    have ho : s.message sql lease (.backend,msg) = s.backendMessage msg := by
      simp [Session.message,hs]
    rw [map_cons,foldl_cons,foldl_cons,ho,ih ((backendMessage_ended msg).trans hs)]

theorem processBackendData_eq (hs : s.ended = none)
    (hm : s.handler.state.proxyMode ≠ .sslPassthrough) (h : Drains maxGatewayBufferSize buf l rest) :
    processBackendData s buf = ((l.map (Side.backend,·)).foldl (Session.message sql lease) s,rest) := by
  rw [processBackendData,if_neg hm,backendMessages_drains h le_rfl,foldl_message_backend hs,
    foldl_backendMessage]
  have hst := Gateway.processBackendData_eq_foldl s.handler.state (l.map backend)
  rw [Gateway.processBackendData] at hst
  simp only [Session.applyBackendDataBatch,foldl_observeKey_handler,hst,nil_append]
  rw [Session.received,foldl_observeKey_handler]

end BackendPass

section Top
variable {s : Session}

/-- The session is held by nothing and is on its route. -/
structure Steady (h : Handler) : Prop where
  hold : holdReason h.view.fence = none
  fence : h.view.fence.fenced = false
  route : h.view.route = h.backendAddr

theorem top_ended (h : s.ended.isSome) : s.top = s := by rw [Session.top,if_pos h]

theorem held_steady {h : Handler} (hs : Steady h) : held h = (h,.ok ()) := by
  simp [held,Handler.waitForUpgradeHoldIfNeeded,Handler.waitForFenceIfNeeded,Outcome.andThen,hs.hold,
    hs.fence]

theorem held_eq_ok {h : Handler} (hok : (held h).2 = .ok ()) :
    holdReason h.view.fence = none ∧ h.view.fence.fenced = false := by
  by_cases hold : holdReason h.view.fence = none
  · by_cases hf : h.view.fence.fenced = false
    · exact ⟨hold,hf⟩
    · rw [Bool.not_eq_false] at hf
      have hp : h.waitForUpgradeHoldIfNeeded none = (h,.ok ()) := by
        simp [Handler.waitForUpgradeHoldIfNeeded,hold]
      rw [held,hp] at hok
      simp only [Outcome.andThen,Handler.waitForFenceIfNeeded,hf,Handler.sever,Bool.not_true,
        Bool.false_eq_true,if_false] at hok
      split_ifs at hok
      simp at hok
  · obtain ⟨a,hr,-⟩ := andThen_eq_ok hok
    obtain ⟨reason,hre⟩ := Option.ne_none_iff_exists'.1 hold
    simp only [Handler.waitForUpgradeHoldIfNeeded,hre,Handler.sever] at hr
    split_ifs at hr
    simp at hr

theorem top_steady (h : Steady s.handler) : s.top = s := by
  rw [Session.top,held_steady h]
  simp [h.route]

theorem top_cases (hro : s.handler.view.route ≠ none) (hs : s.ended = none) :
    s.top.ended.isSome ∨ s.top = s ∧ Steady s.handler := by
  cases hh : (held s.handler).2 with
  | error e =>
    left
    simp [Session.top,hs,hh,Session.fail]
  | ok u =>
    obtain ⟨hold,hf⟩ := held_eq_ok hh
    by_cases hr : s.handler.view.route = s.handler.backendAddr
    · exact .inr ⟨top_steady ⟨hold,hf,hr⟩,hold,hf,hr⟩
    · left
      simp [Session.top,hs,hh,hr,hro]

end Top

section Kept

theorem proxyMode_forwardOne (sql : Parser) (s : ConnectionState) (m : Frontend) :
    (forwardOne sql s m).proxyMode = s.proxyMode := by
  rw [forwardOne_eq]
  rcases handleQueryMessage_marks sql s m with h | h <;> rw [h] <;> rfl

theorem proxyMode_observeOne {s : ConnectionState} (h : s.proxyMode ≠ .sslPassthrough) (m : Backend) :
    (observeOne s m).proxyMode ≠ .sslPassthrough := by
  rw [observeOne_eq]
  cases m with
  | readyForQuery status => exact nofun
  | parseComplete => rwa [(acknowledge_settles s _).proxyMode]
  | closeComplete => rwa [(acknowledge_settles s _).proxyMode]
  | errorResponse => rwa [(acknowledge_settles s _).proxyMode]
  | copyInResponse | copyOutResponse | copyBothResponse => exact nofun
  | other => exact h

structure Kept (s s' : Session) : Prop where
  view : s'.handler.view = s.handler.view
  backendAddr : s'.handler.backendAddr = s.handler.backendAddr
  mode : s.handler.state.proxyMode ≠ .sslPassthrough → s'.handler.state.proxyMode ≠ .sslPassthrough

theorem kept_message (sql : Parser) (lease : LeaseView) (s : Session) (m : Side × Bytes) :
    Kept s (s.message sql lease m) := by
  unfold Session.message
  split_ifs with he
  · exact ⟨rfl,rfl,id⟩
  · split
    · unfold Session.clientMessage
      split_ifs
      · exact ⟨rfl,rfl,id⟩
      · exact ⟨rfl,rfl,id⟩
      · refine ⟨rfl,rfl,fun h => ?_⟩
        show (forwardOne sql s.handler.state (frontend m.2)).proxyMode ≠ _
        rwa [proxyMode_forwardOne]
    · exact ⟨rfl,rfl,fun h => proxyMode_observeOne h _⟩

theorem kept_messages (sql : Parser) (lease : LeaseView) (s : Session) (l : List (Side × Bytes)) :
    Kept s (l.foldl (Session.message sql lease) s) := by
  induction l generalizing s with
  | nil => exact ⟨rfl,rfl,id⟩
  | cons m l ih =>
    have h₁ := kept_message sql lease s m
    have h₂ := ih (s.message sql lease m)
    exact ⟨h₂.view.trans h₁.view,h₂.backendAddr.trans h₁.backendAddr,fun h => h₂.mode (h₁.mode h)⟩

theorem Kept.steady {s s' : Session} (h : Kept s s') (hs : Steady s.handler) : Steady s'.handler := by
  refine ⟨?_,?_,?_⟩
  · rw [h.view]
    exact hs.hold
  · rw [h.view]
    exact hs.fence
  · rw [h.view,h.backendAddr]
    exact hs.route

end Kept

section Run
variable {sql : Parser} {lease : LeaseView} {l l' : Loop} {reads : List Read}

theorem stream_cons (side : Side) (r : Read) (reads : List Read) :
    stream side (r::reads) = (if r.side = side then r.bytes else [])++stream side reads := by
  by_cases h : r.side = side <;> simp [stream,h]

/-- The loop processes messages: the session is not in passthrough mode, and on its route. -/
structure Live (s : Session) : Prop where
  steady : Steady s.handler
  mode : s.handler.state.proxyMode ≠ .sslPassthrough

theorem Kept.live {s s' : Session} (h : Kept s s') (hlive : Live s) : Live s' :=
  ⟨h.steady hlive.steady,h.mode hlive.mode⟩

theorem next_ended (h : l.session.ended.isSome) (r : Read) : l.next sql lease r = l := by
  rw [Loop.next,if_pos h]

theorem run_ended (h : l.session.ended.isSome) (reads : List Read) :
    run (step sql lease) l reads = some l := by
  induction reads with
  | nil => rfl
  | cons r reads ih =>
    rw [run_cons,step,next_ended h,Option.bind_some,ih]

theorem top_messages {s : Session} (hlive : Live s) (ms : List (Side × Bytes)) :
    (ms.foldl (Session.message sql lease) s).top = ms.foldl (Session.message sql lease) s :=
  top_steady ((kept_messages sql lease s ms).steady hlive.steady)

theorem isOk_framed {max : ℕ} {buf : Bytes} :
    (framed max buf).isOk ↔ ∃ ms rest, Drains max buf ms rest := by
  cases h : framed max buf with
  | error e =>
    refine iff_of_false nofun ?_
    rintro ⟨ms,rest,hd⟩
    rw [framed_eq_ok_iff.2 hd] at h
    cases h
  | ok r => exact iff_of_true rfl ⟨r.1,r.2,framed_eq_ok_iff.1 h⟩

section Next
variable {bytes rest : Bytes} {ms : List Bytes} (hs : l.session.ended = none) (hlive : Live l.session)
  (hne : bytes ≠ [])
include hs hlive hne

theorem next_client (hl : lease.expiredAfterSend = lease.expired) (hm : Meets l ⟨.client,bytes⟩)
    (h : Drains maxGatewayBufferSize (l.clientBuf++bytes) ms rest) :
    (l.next sql lease ⟨.client,bytes⟩).session =
        (ms.map (Side.client,·)).foldl (Session.message sql lease) l.session ∧
      (l.next sql lease ⟨.client,bytes⟩).backendBuf = l.backendBuf ∧
      ((l.next sql lease ⟨.client,bytes⟩).session.ended = none →
        (l.next sql lease ⟨.client,bytes⟩).clientBuf = rest) := by
  obtain ⟨hln,hsm,hla⟩ := hm hs
  -- until the backend has answered, the smaller bound is in force
  have hma : Drains (maxMessage l.session.handler.state) (l.clientBuf++bytes) ms rest := by
    by_cases hq : 0 < l.session.handler.state.queriesProcessed
    · rwa [maxMessage,if_pos hq]
    · rw [maxMessage,if_neg hq]
      obtain ⟨ms',rest',hd⟩ := isOk_framed.1 (hsm (by omega))
      have hle : maxPreAuthMessage ≤ maxGatewayBufferSize := by decide
      obtain ⟨rfl,rfl⟩ := (hd.mono hle).unique h
      exact hd
  have ht : terminateLast ms rest := by
    refine hla (ms,rest) ?_
    rw [framed_eq_ok_iff.2 h]
    rfl
  obtain ⟨hse,hr⟩ := @processClientData_eq sql lease l.session _ _ _ hs hlive.mode
    hlive.steady.route hl hma ht
  have hn : l.next sql lease ⟨.client,bytes⟩ =
      ⟨(processClientData sql lease l.session (l.clientBuf++bytes)).1.top,
        (processClientData sql lease l.session (l.clientBuf++bytes)).2,l.backendBuf⟩ := by
    simp only [Loop.next,hs,handleClientReadResult,if_neg hne,if_neg (not_lt.2 hln)]
    rfl
  have hto := @top_messages sql lease l.session hlive (ms.map (Side.client,·))
  rw [hn]
  dsimp only
  rw [hse] at hr ⊢
  rw [hto]
  exact ⟨rfl,rfl,hr⟩

theorem next_backend (hm : Meets l ⟨.backend,bytes⟩)
    (h : Drains maxGatewayBufferSize (l.backendBuf++bytes) ms rest) :
    (l.next sql lease ⟨.backend,bytes⟩) =
      ⟨(ms.map (Side.backend,·)).foldl (Session.message sql lease) l.session,l.clientBuf,rest⟩ := by
  have hd := @processBackendData_eq sql lease l.session _ _ _ hs hlive.mode h
  have ht := @top_messages sql lease l.session hlive (ms.map (Side.backend,·))
  simp only [Loop.next,hs,handleBackendReadResult,if_neg hne,if_neg (not_lt.2 (hm hs)),hd]
  rw [ht]
  rfl

end Next

/-- A run that meets the condition is the messages its reads complete. -/
theorem run_messages (hl : lease.expiredAfterSend = lease.expired)
    (hlive : l.session.ended = none → Live l.session) {ms ms' : List Bytes} {rest rest' : Bytes}
    (hc : Drains maxGatewayBufferSize (l.clientBuf++stream .client reads) ms rest)
    (hb : Drains maxGatewayBufferSize (l.backendBuf++stream .backend reads) ms' rest')
    (hne : ∀ r ∈ reads, r.bytes ≠ []) (hm : Guarded (step sql lease) Meets l reads)
    (hru : run (step sql lease) l reads = some l') :
    l'.session = (completions l.clientBuf l.backendBuf reads).foldl (Session.message sql lease) l.session := by
  induction reads generalizing l ms ms' with
  | nil =>
    cases hru
    rfl
  | cons r reads ih =>
    by_cases hs : l.session.ended = none
    · obtain ⟨side,bytes⟩ := r
      have hby := hne _ mem_cons_self
      have hmo : ∀ r ∈ reads, r.bytes ≠ [] := fun r hr => hne r (mem_cons_of_mem _ hr)
      rw [run_cons,step,Option.bind_some] at hru
      have hg := hm.2 _ rfl
      rw [stream_cons] at hc hb
      cases side with
      | client =>
        simp only [if_true,reduceCtorEq,if_false,nil_append] at hc hb
        rw [← append_assoc] at hc
        obtain ⟨ms₁,ms₂,rest₁,h₁,h₂,rfl⟩ := hc.cut
        obtain ⟨hse,hba,hbu⟩ := next_client hs (hlive hs) hby hl hm.1 h₁
        simp only [completions,framed_eq_ok_iff.2 h₁,foldl_append]
        rw [← hse]
        by_cases he : (l.next sql lease ⟨.client,bytes⟩).session.ended = none
        · rw [← hbu he] at h₂ ⊢
          rw [← hba] at hb ⊢
          refine ih (fun _ => ?_) h₂ hb hmo hg hru
          have hk := kept_messages sql lease l.session (ms₁.map (Side.client,·))
          rw [hse]
          exact hk.live (hlive hs)
        · have hso := Option.isSome_iff_ne_none.2 he
          rw [run_ended hso] at hru
          cases hru
          rw [foldl_message_ended sql lease hso]
      | backend =>
        simp only [if_true,reduceCtorEq,if_false,nil_append] at hc hb
        rw [← append_assoc] at hb
        obtain ⟨ms₁,ms₂,rest₁,h₁,h₂,rfl⟩ := hb.cut
        have hn := @next_backend sql lease l _ _ _ hs (hlive hs) hby hm.1 h₁
        have hk := kept_messages sql lease l.session (ms₁.map (Side.backend,·))
        simp only [completions,framed_eq_ok_iff.2 h₁,foldl_append]
        rw [hn] at hru hg
        exact ih (l := ⟨_,l.clientBuf,rest₁⟩) (fun _ => hk.live (hlive hs)) hc h₂ hmo hg hru
    · have hso := Option.isSome_iff_ne_none.2 hs
      rw [run_ended hso] at hru
      cases hru
      rw [foldl_message_ended sql lease hso]

def Session.passed (s : Session) (c b : Bytes) : Session :=
  {s with
    bytesSent := s.bytesSent+c.length
    bytesReceived := s.bytesReceived+b.length
    toBackend := s.toBackend++c
    toClient := s.toClient++b}

theorem next_passthrough {r : Read} {s : Session} (hs : s.ended = none) (hst : Steady s.handler)
    (hmo : s.handler.state.proxyMode = .sslPassthrough) (hne : r.bytes ≠ []) (hm : Meets ⟨s,[],[]⟩ r) :
    Loop.next sql lease ⟨s,[],[]⟩ r = ⟨s.passed (if r.side = .client then r.bytes else [])
      (if r.side = .backend then r.bytes else []),[],[]⟩ := by
  have hl := hm hs
  have ho : s.ended.isSome = false := by rw [hs]; rfl
  obtain ⟨side,bytes⟩ := r
  cases side with
  | client =>
    have hf : ¬maxGatewayBufferSize < bytes.length := not_lt.2 hl.1
    have ht : (s.passed bytes []).top = s.passed bytes [] := top_steady hst
    simp only [Session.passed,length_nil,Nat.add_zero,append_nil] at ht
    simp only [Loop.next,ho,handleClientReadResult,if_neg hne,nil_append,if_neg hf,
      processClientData,if_pos hmo,Session.passed]
    simp [ht]
  | backend =>
    have hf : ¬maxGatewayBufferSize < bytes.length := not_lt.2 hl
    have ht : (s.passed [] bytes).top = s.passed [] bytes := top_steady hst
    simp only [Session.passed,length_nil,Nat.add_zero,append_nil] at ht
    simp only [Loop.next,ho,handleBackendReadResult,if_neg hne,nil_append,if_neg hf,
      processBackendData,if_pos hmo,Session.passed]
    simp [ht]

theorem run_passthrough {s : Session} (hs : s.ended = none) (hst : Steady s.handler)
    (hmo : s.handler.state.proxyMode = .sslPassthrough) (hne : ∀ r ∈ reads, r.bytes ≠ [])
    (hm : Guarded (step sql lease) Meets ⟨s,[],[]⟩ reads)
    (hru : run (step sql lease) ⟨s,[],[]⟩ reads = some l') :
    l'.session = s.passed (stream .client reads) (stream .backend reads) := by
  induction reads generalizing s with
  | nil =>
    cases hru
    simp [Session.passed,stream]
  | cons r reads ih =>
    have hn := @next_passthrough sql lease r s hs hst hmo (hne r mem_cons_self) hm.1
    have hg := hm.2 _ rfl
    rw [run_cons,step,Option.bind_some,hn] at hru
    rw [hn] at hg
    have hre := ih (s := s.passed _ _) hs hst hmo
      (fun r hr => hne r (mem_cons_of_mem _ hr)) hg hru
    rw [hre,stream_cons,stream_cons]
    simp [Session.passed,Nat.add_assoc]

theorem filter_completions {c b : Bytes} {ms ms' : List Bytes} {rest rest' : Bytes}
    (hc : Drains maxGatewayBufferSize (c++stream .client reads) ms rest)
    (hb : Drains maxGatewayBufferSize (b++stream .backend reads) ms' rest')
    (hcu : split maxGatewayBufferSize c = .ok none) (hbu : split maxGatewayBufferSize b = .ok none) :
    (completions c b reads).filter (fun m => m.1 = .client) = ms.map (Side.client,·) ∧
      (completions c b reads).filter (fun m => m.1 = .backend) = ms'.map (Side.backend,·) := by
  induction reads generalizing c b ms ms' with
  | nil =>
    simp only [stream,filter_nil,flatMap_nil,append_nil] at hc hb
    obtain ⟨rfl,-⟩ := hc.unique (.stop hcu)
    obtain ⟨rfl,-⟩ := hb.unique (.stop hbu)
    exact ⟨rfl,rfl⟩
  | cons r reads ih =>
    obtain ⟨side,bytes⟩ := r
    rw [stream_cons] at hc hb
    cases side with
    | client =>
      simp only [if_true,reduceCtorEq,if_false,nil_append] at hc hb
      rw [← append_assoc] at hc
      obtain ⟨ms₁,ms₂,rest₁,h₁,h₂,rfl⟩ := hc.cut
      obtain ⟨hcs,hbs⟩ := ih h₂ hb h₁.stopped hbu
      simp only [completions,framed_eq_ok_iff.2 h₁,filter_append,hcs,hbs]
      simp [filter_map,Function.comp_def]
    | backend =>
      simp only [if_true,reduceCtorEq,if_false,nil_append] at hc hb
      rw [← append_assoc] at hb
      obtain ⟨ms₁,ms₂,rest₁,h₁,h₂,rfl⟩ := hb.cut
      obtain ⟨hcs,hbs⟩ := ih hc h₂ hcu h₁.stopped
      simp only [completions,framed_eq_ok_iff.2 h₁,filter_append,hcs,hbs]
      simp [filter_map,Function.comp_def]

theorem eq_of_sides {xs ys : List (Side × Bytes)} (hsi : xs.map Prod.fst = ys.map Prod.fst)
    (hc : xs.filter (fun m => m.1 = .client) = ys.filter fun m => m.1 = .client)
    (hb : xs.filter (fun m => m.1 = .backend) = ys.filter fun m => m.1 = .backend) : xs = ys := by
  induction xs generalizing ys with
  | nil =>
    simpa using hsi.symm
  | cons x xs ih =>
    cases ys with
    | nil => simp at hsi
    | cons y ys =>
      obtain ⟨sx,mx⟩ := x
      obtain ⟨sy,my⟩ := y
      simp only [map_cons,List.cons.injEq] at hsi
      obtain ⟨rfl,hsi⟩ := hsi
      cases sx with
      | client =>
        simp at hc hb
        rw [hc.1,ih hsi (by simpa using hc.2) (by simpa using hb)]
      | backend =>
        simp at hc hb
        rw [hb.1,ih hsi (by simpa using hc) (by simpa using hb.2)]

/-- Two ways of cutting the same streams whose reads all meet the condition leave the session in the
same state: what was forwarded, what is tracked, and whether and how it ended. -/
theorem cut_independent (sql : Parser) (lease : LeaseView)
    (hlease : lease.expiredAfterSend = lease.expired) (s : Session)
    (hroute : s.handler.view.route ≠ none) (r₁ r₂ : List Read) (hcut : Recut r₁ r₂)
    (horder : order r₁ = order r₂) (hm₁ : Guarded (step sql lease) Meets (.start s) r₁)
    (hm₂ : Guarded (step sql lease) Meets (.start s) r₂) {l₁ l₂ : Loop}
    (h₁ : run (step sql lease) (.start s) r₁ = some l₁)
    (h₂ : run (step sql lease) (.start s) r₂ = some l₂) : l₁.session = l₂.session := by
  by_cases he : s.top.ended.isSome
  · rw [run_ended he] at h₁ h₂
    cases h₁
    cases h₂
    rfl
  · have hs : s.ended = none := by
      by_contra hso
      rw [top_ended (Option.isSome_iff_ne_none.2 hso)] at he
      exact he (Option.isSome_iff_ne_none.2 hso)
    obtain ⟨ht,hst⟩ := (top_cases hroute hs).resolve_left he
    rw [Loop.start,ht] at hm₁ hm₂ h₁ h₂
    by_cases hm : s.handler.state.proxyMode = .sslPassthrough
    · rw [run_passthrough hs hst hm hcut.nonempty₁ hm₁ h₁,
        run_passthrough hs hst hm hcut.nonempty₂ hm₂ h₂,hcut.streams,hcut.streams]
    · obtain ⟨ms,rest,hdc⟩ := isOk_framed.1 (hcut.valid .client)
      obtain ⟨ms',rest',hdb⟩ := isOk_framed.1 (hcut.valid .backend)
      have hlive : s.ended = none → Live s := fun _ => ⟨hst,hm⟩
      rw [run_messages (l := ⟨s,[],[]⟩) hlease hlive hdc hdb hcut.nonempty₁ hm₁ h₁]
      have hf₁ := filter_completions (c := []) (b := []) hdc hdb split_nil split_nil
      rw [hcut.streams] at hdc hdb
      rw [run_messages (l := ⟨s,[],[]⟩) hlease hlive hdc hdb hcut.nonempty₂ hm₂ h₂]
      have hf₂ := filter_completions (c := []) (b := []) hdc hdb split_nil split_nil
      have hsa : completions [] [] r₁ = completions [] [] r₂ :=
        eq_of_sides horder (hf₁.1.trans hf₂.1.symm) (hf₁.2.trans hf₂.2.symm)
      rw [hsa]

def sampleSession : Session where
  handler := {
    state := {queriesProcessed := 1}
    backendAddr := some (node 0)
    view := {leader := some (node 0)}}

def sync : Bytes := packet 83 []
def terminate : Bytes := packet 88 []
def ready : Bytes := packet 90 [73]

/-- Two Syncs and their answer, in three reads and in six. -/
def sampleCuts : List Read × List Read :=
  ([⟨.client,sync++sync.take 2⟩,⟨.client,sync.drop 2⟩,⟨.backend,ready⟩],
    [⟨.client,sync.take 1⟩,⟨.client,sync.drop 1⟩,⟨.client,sync.take 4⟩,⟨.client,sync.drop 4⟩,
      ⟨.backend,ready.take 5⟩,⟨.backend,ready.drop 5⟩])

theorem cut_independent_sync : sampleCuts.1 ≠ sampleCuts.2 ∧ ∀ l₁ l₂,
    run (step rejecting {}) (.start sampleSession) sampleCuts.1 = some l₁ →
    run (step rejecting {}) (.start sampleSession) sampleCuts.2 = some l₂ →
    l₁.session = l₂.session := by
  refine ⟨by decide +kernel,fun l₁ l₂ h₁ h₂ => ?_⟩
  have hc : Recut sampleCuts.1 sampleCuts.2 := by
    refine ⟨by decide +kernel,by decide +kernel,?_,?_⟩
    · rintro (_ | _) <;> decide +kernel
    · rintro (_ | _) <;> unfold Valid <;> decide +kernel
  exact cut_independent rejecting {} rfl sampleSession (by decide +kernel) sampleCuts.1 sampleCuts.2
    hc (by decide +kernel) (by decide +kernel) (by decide +kernel) h₁ h₂

section TwoMessages
variable {m m' : Bytes}

theorem drains_one (hm : split maxGatewayBufferSize m = .ok (some (m,[]))) :
    Drains maxGatewayBufferSize m [m] [] :=
  .more hm (.stop split_nil)

theorem drains_two (hm : split maxGatewayBufferSize m = .ok (some (m,[])))
    (hm' : split maxGatewayBufferSize m' = .ok (some (m',[]))) :
    Drains maxGatewayBufferSize (m++m') [m,m'] [] := by
  have hsp := split_append hm m'
  exact .more hsp (drains_one hm')

theorem recut_two (hm : split maxGatewayBufferSize m = .ok (some (m,[])))
    (hm' : split maxGatewayBufferSize m' = .ok (some (m',[]))) :
    Recut [⟨.client,m++m'⟩] [⟨.client,m⟩,⟨.client,m'⟩] where
  nonempty₁ := by simp [ne_nil_of_split hm]
  nonempty₂ := by simp [ne_nil_of_split hm,ne_nil_of_split hm']
  streams side := by cases side <;> simp [stream]
  valid side := by
    cases side with
    | client =>
      have hd := drains_two hm hm'
      exact isOk_framed.2 ⟨_,_,by simpa [stream] using hd⟩
    | backend => exact isOk_framed.2 ⟨_,_,.stop split_nil⟩

/-- A session that takes messages of any valid length. -/
structure Open (s : Session) : Prop where
  ended : s.ended = none
  live : Live s
  answered : 0 < s.handler.state.queriesProcessed

theorem next_one {s : Session} (ho : Open s) (hm : split maxGatewayBufferSize m = .ok (some (m,[])))
    (hl : m.length ≤ maxGatewayBufferSize) (ht : isTerminate m = false) :
    ∃ s', Loop.next sql {} ⟨s,[],[]⟩ ⟨.client,m⟩ = ⟨s',[],[]⟩ ∧ Open s' ∧
      s'.toBackend = s.toBackend++m := by
  have hme : Meets ⟨s,[],[]⟩ ⟨.client,m⟩ := by
    refine fun _ => ⟨hl,fun hz => absurd hz ho.answered.ne',fun q hq => ?_⟩
    rw [nil_append,framed_eq_ok_iff.2 (drains_one hm)] at hq
    cases hq
    simp [terminateLast,ht]
  obtain ⟨hse,hb,hbu⟩ := @next_client sql {} ⟨s,[],[]⟩ m [] [m] ho.ended ho.live
    (ne_nil_of_split hm) rfl hme (drains_one hm)
  have hk := kept_message sql {} s (.client,m)
  have hms : s.message sql {} (.client,m) = {s with
      handler := {s.seen m with state := forwardOne sql s.handler.state (frontend m)}
      bytesSent := s.bytesSent+m.length
      toBackend := s.toBackend++m} := by
    simp [Session.message,ho.ended,Session.clientMessage,ht]
  have hf : (Loop.next sql {} ⟨s,[],[]⟩ ⟨.client,m⟩).session = s.message sql {} (.client,m) := hse
  have he : (s.message sql {} (.client,m)).ended = none := by
    rw [hms]
    exact ho.ended
  refine ⟨s.message sql {} (.client,m),?_,
    ⟨he,hk.live ho.live,?_⟩,by rw [hms]⟩
  · generalize Loop.next sql {} ⟨s,[],[]⟩ ⟨.client,m⟩ = l at hf hb hbu
    rw [← hf] at he
    cases l
    simp_all only
  · have hc := forwardOne_queriesProcessed sql s.handler.state (frontend m)
    rw [hms]
    exact hc.symm ▸ ho.answered

theorem next_overflow {s : Session} (hs : s.ended = none) (hne : m ≠ [])
    (hl : maxGatewayBufferSize < m.length) :
    (Loop.next sql {} ⟨s,[],[]⟩ ⟨.client,m⟩).session.ended ≠ none := by
  have ho : s.ended.isSome = false := by rw [hs]; rfl
  have hf : ∀ e, (s.fail s.handler e).top = s.fail s.handler e := fun e => top_ended rfl
  simp only [Loop.next,ho,handleClientReadResult,if_neg hne,nil_append,if_pos hl,hf]
  exact nofun

end TwoMessages

def copyingSession : Session where
  handler := {sampleSession.handler with state := {queriesProcessed := 1,proxyMode := .copyStreaming}}

def parseMessage (name : U8) (text : String) : Bytes :=
  packet 80 ([name,0]++(text.toList.map fun c => Fin.ofNat 256 c.toNat)++[0,0,0])

/-- A Parse that fails, another and a Sync, sent together, or the last two behind the first's error. -/
def failedParse : List Read × List Read :=
  let bad := parseMessage 97 "SELEC"
  let behind := parseMessage 98 "SELECT 1"++sync
  let error := packet 69 [0]
  ([⟨.client,bad++behind⟩,⟨.backend,error++ready⟩],
    [⟨.client,bad⟩,⟨.backend,error⟩,⟨.client,behind⟩,⟨.backend,ready⟩])

/-- A CopyData message of the largest valid length and the CopyDone after it: in one read they are
more than the buffer may hold, in two they are forwarded. A message behind a Terminate: in one
read with it, it stays in the buffer, in the next it is forwarded. And a Parse behind one that fails:
read before the error it leaves the session movable, after it it does not. -/
theorem cut_decides :
    (∃ body : Bytes, body.length+5 = maxGatewayBufferSize ∧
      Recut [⟨.client,packet 100 body++packet 99 []⟩] [⟨.client,packet 100 body⟩,⟨.client,packet 99 []⟩] ∧
      ∃ l₁ l₂, run (step rejecting {}) (.start copyingSession)
          [⟨.client,packet 100 body++packet 99 []⟩] = some l₁ ∧
        run (step rejecting {}) (.start copyingSession)
          [⟨.client,packet 100 body⟩,⟨.client,packet 99 []⟩] = some l₂ ∧
        l₁.session.ended ≠ none ∧ l₂.session.ended = none ∧
        l₂.session.toBackend = packet 100 body++packet 99 []) ∧
    (Recut [⟨.client,terminate++sync⟩] [⟨.client,terminate⟩,⟨.client,sync⟩] ∧
      ∃ l₁ l₂, run (step rejecting {}) (.start sampleSession) [⟨.client,terminate++sync⟩] = some l₁ ∧
        run (step rejecting {}) (.start sampleSession) [⟨.client,terminate⟩,⟨.client,sync⟩] = some l₂ ∧
        l₁.session.toBackend = [] ∧ l₂.session.toBackend = sync) ∧
    Recut failedParse.1 failedParse.2 ∧
      ∃ l₁ l₂, run (step rejecting {}) (.start sampleSession) failedParse.1 = some l₁ ∧
        run (step rejecting {}) (.start sampleSession) failedParse.2 = some l₂ ∧
        l₁.session.handler.state.notMigratable = false ∧
        l₂.session.handler.state.notMigratable = true := by
  have hst : Steady copyingSession.handler := ⟨by decide +kernel,by decide +kernel,by decide +kernel⟩
  have ho : Open copyingSession := ⟨rfl,⟨hst,by decide +kernel⟩,by decide +kernel⟩
  have hsta : Loop.start copyingSession = ⟨copyingSession,[],[]⟩ := by rw [Loop.start,top_steady hst]
  refine ⟨?_,⟨recut_two (by decide +kernel) (by decide +kernel),_,_,rfl,rfl,?_,?_⟩,?_,_,_,rfl,rfl,?_,?_⟩
  · obtain ⟨body,hb⟩ : ∃ body : Bytes, body.length+5 = maxGatewayBufferSize :=
      ⟨List.replicate 16777211 0,by rw [length_replicate]; rfl⟩
    have hsi : maxGatewayBufferSize = 16777216 := rfl
    have hd : split maxGatewayBufferSize (packet 100 body) = .ok (some (packet 100 body,[])) := by
      have h := @split_packet maxGatewayBufferSize 100 body (by omega) (by omega) []
      rwa [append_nil] at h
    have hdo : split maxGatewayBufferSize (packet 99 []) = .ok (some (packet 99 [],[])) := by
      decide +kernel
    have hl : (packet 100 body).length = maxGatewayBufferSize := by
      simp only [packet,length_cons,length_append,Framing.length_toBeBytes]
      omega
    obtain ⟨s₁,hn₁,ho₁,hb₁⟩ := @next_one rejecting _ _ ho hd hl.le rfl
    obtain ⟨s₂,hn₂,ho₂,hb₂⟩ := @next_one rejecting _ _ ho₁ hdo (by decide +kernel) rfl
    refine ⟨body,hb,recut_two hd hdo,_,⟨s₂,[],[]⟩,rfl,?_,?_,ho₂.ended,?_⟩
    · simp only [run_cons,step,hsta,hn₁,hn₂,Option.bind_some,run_nil]
    · rw [hsta]
      refine next_overflow rfl (by simp [packet]) ?_
      rw [length_append,hl]
      exact Nat.lt_add_of_pos_right (by decide +kernel)
    · rw [hb₂,hb₁]
      rfl
  · decide +kernel
  · decide +kernel
  · refine ⟨by decide +kernel,by decide +kernel,?_,?_⟩
    · rintro (_ | _) <;> decide +kernel
    · rintro (_ | _) <;> unfold Valid <;> decide +kernel
  · decide +kernel
  · decide +kernel

end Run

end Chunking
end PgBattery
