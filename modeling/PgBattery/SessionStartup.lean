import PgBattery.Failover
import PgBattery.TransitionSystem

/-! What a client is shown of the startup of its session while the gateway moves the session from
backend to backend. -/
namespace PgBattery
namespace SessionStartup
open Analysis Gateway StateMachine Failover TransitionSystem List

inductive Phase
  | authenticating | authenticated | ready
  deriving DecidableEq

/-- What a backend may send, and how far it then is. -/
def Phase.send (p : Phase) (m : Message) : Option Phase :=
  match p with
  | .authenticating => match m with
    | .authentication code => some (if code = 0 then .authenticated else .authenticating)
    | .errorResponse _ | .other => some .authenticating
    | .backendKeyData .. | .notificationResponse .. | .readyForQuery _ | .parseComplete
    | .closeComplete | .copyInResponse | .copyOutResponse | .copyBothResponse => none
  | .authenticated => match m with
    | .readyForQuery status => if status = .idle then some .ready else none
    | .backendKeyData .. | .errorResponse _ | .other => some .authenticated
    | .authentication _ | .notificationResponse .. | .parseComplete | .closeComplete
    | .copyInResponse | .copyOutResponse | .copyBothResponse => none
  | .ready => match m with
    | .authentication _ | .backendKeyData .. => none
    | .errorResponse _ | .notificationResponse .. | .readyForQuery _ | .parseComplete
    | .closeComplete | .copyInResponse | .copyOutResponse | .copyBothResponse | .other => some .ready

def Phase.sends : Phase → List Message → Option Phase
  | p, [] => some p
  | p, m::ms => (p.send m).bind fun q => q.sends ms

structure Sent where
  connection : ℕ
  startup : Bool
  message : Message
  deriving DecidableEq

def outgoing (connection : ℕ) : Phase → List Message → List Sent
  | _, [] => []
  | p, m::ms => ⟨connection,p ≠ .ready,m⟩::outgoing connection ((p.send m).getD p) ms

/-- Where the loop is: before one of its three checks, or waiting for its sockets. -/
inductive Position
  | upgrade | fence | route | select
  deriving DecidableEq

/-- A session from the moment its startup message is sent to its first backend. Connections are
numbered as they are made; `challenge` is the connection whose authentication request the client
still has to answer, and `responses` pairs it with the one the answer was forwarded on. -/
structure Session where
  handler : Handler
  position : Position := .upgrade
  connection : ℕ := 0
  phase : Phase := .authenticating
  pending : List Sent := []
  written : List Sent := []
  challenge : Option ℕ := none
  responses : List (ℕ × ℕ) := []
  closed : Bool := false

inductive Event
  | view (v : View)
  | send (m : Message)
  | hold (later : Option View)
  | lift (later : Option View)
  | follow (t : Turn)
  | client (lease : LeaseView) (batch : List Frontend)
  | deliver (n : ℕ)
  | lost (giveUp : GiveUp) (attempts : List Attempt)
  | wake
  | idle
  | close

/-- The backend of an attempt starts its session as the protocol demands. -/
def conforms (a : Attempt) : Bool := (Phase.sends .authenticating a.sent).isSome

def Session.proceed (s : Session) (h : Handler) : Option Moved → Option Session
  | none => some {s with handler := h}
  | some m => (Phase.sends .authenticating m.sent).map fun p =>
    {s with
      handler := h
      connection := s.connection+1
      phase := p
      pending := (outgoing (s.connection+1) .authenticating m.sent).drop
        (m.sent.length-m.rest.length)}

def Session.conclude (s : Session) (position : Position) (r : Outcome (Option Moved)) :
    Option Session :=
  match r.2 with
  | .ok moved => {s with position := position}.proceed r.1 moved
  | .error e => some {s with handler := r.1.announce e}

def stayed (r : Outcome Unit) : Outcome (Option Moved) := r.andThen fun h _ => (h,.ok none)

/-- A client answers an authentication request it was shown, once. -/
def answersChallenge (s : Session) (batch : List Frontend) : Bool :=
  batch.count .password = 0 || (batch.count .password = 1 && s.challenge.isSome)

def shown (challenge : Option ℕ) (m : Sent) : Option ℕ :=
  match m.message with
  | .authentication code => if code = 0 then none else some m.connection
  | .backendKeyData .. | .errorResponse _ | .notificationResponse .. | .readyForQuery _
  | .parseComplete | .closeComplete | .copyInResponse | .copyOutResponse | .copyBothResponse
  | .other => challenge

def Session.respond (s : Session) (batch : List Frontend) : Session :=
  if .password ∈ batch then
    {s with
      challenge := none
      responses := s.responses++s.challenge.toList.map fun c => (c,s.connection)}
  else s

def step (sql : Parser) (s : Session) (e : Event) : Option Session :=
  if s.handler.told.isSome || s.closed then none
  else match e with
    | .view v => some {s with handler := {s.handler with view := v}}
    | .send m => (s.phase.send m).map fun p =>
      {s with phase := p, pending := s.pending++[⟨s.connection,s.phase ≠ .ready,m⟩]}
    | .hold later =>
      if s.position = .upgrade then
        s.conclude .fence (stayed (s.handler.waitForUpgradeHoldIfNeeded later))
      else none
    | .lift later =>
      if s.position = .fence then s.conclude .route (stayed (s.handler.waitForFenceIfNeeded later))
      else none
    | .follow t =>
      if s.position = .route && (t.attempt::t.attempts).all conforms then
        s.conclude .select (s.handler.followRoute t)
      else none
    | .client lease batch =>
      if s.position = .select && answersChallenge s batch then
        (s.respond batch).conclude .upgrade (stayed (s.handler.processClientData sql lease batch))
      else none
    | .deliver n =>
      if s.position = .select then
        let messages := s.pending.take n
        some {s with
          position := .upgrade
          handler := {s.handler with
            state := processBackendData s.handler.state (messages.map fun m => m.message.observed)}
          pending := s.pending.drop n
          written := s.written++messages
          challenge := messages.foldl shown s.challenge}
      else none
    | .lost giveUp attempts =>
      if s.position = .select && attempts.all conforms then
        s.conclude .upgrade (s.handler.handleBackendDisconnect giveUp attempts)
      else none
    | .wake => if s.position = .select then some {s with position := .upgrade} else none
    | .idle =>
      if s.position = .select && !s.handler.state.responsePending then
        some {s with handler := {s.handler with told := some .idle}}
      else none
    | .close => if s.position = .select then some {s with closed := true} else none

def connected (addr : SocketAddr) (v : View) : Session := {handler := {backendAddr := some addr, view := v}}

def isAuthenticationOk (m : Sent) : Bool := m.message = .authentication 0

def isStartupReady (m : Sent) : Bool :=
  m.startup && match m.message with
    | .readyForQuery _ => true
    | .authentication _ | .backendKeyData .. | .errorResponse _ | .notificationResponse ..
    | .parseComplete | .closeComplete | .copyInResponse | .copyOutResponse | .copyBothResponse
    | .other => false

/-- An error of a startup is FATAL: the backend has refused the session. -/
def isRefusal (m : Sent) : Bool :=
  m.startup && match m.message with
    | .errorResponse _ => true
    | .authentication _ | .backendKeyData .. | .readyForQuery _ | .notificationResponse ..
    | .parseComplete | .closeComplete | .copyInResponse | .copyOutResponse | .copyBothResponse
    | .other => false

def Session.refused (s : Session) : Bool := s.written.any isRefusal

/-- The client sees its startup once and before all else, the whole of it once the backend has
finished it, and is heard only by the backend it answers. -/
structure SeesStartup (s : Session) : Prop where
  authenticated : s.written.countP isAuthenticationOk ≤ 1
  ready : s.written.countP isStartupReady ≤ 1
  ordered : ∀ a m b, s.written = a++m::b → isStartupReady m → a.countP isAuthenticationOk = 1
  first : ∀ a m b, s.written = a++m::b → m.startup = false →
    a.countP isAuthenticationOk = 1 ∧ a.countP isStartupReady = 1
  finished : s.phase = .ready → (∀ m ∈ s.pending, m.startup = false) →
    s.written.countP isAuthenticationOk = 1 ∧ s.written.countP isStartupReady = 1
  responses : ∀ r ∈ s.responses, r.1 = r.2

/-- Until the startup's ReadyForQuery is processed, the session has no other route when it follows
its route, and its backend is not lost unless that refused the session. -/
def Steady (s : Session) : Event → Prop
  | .follow t => s.handler.state.queriesProcessed = 0 → !s.refused →
    t.attempt.routed.route.all fun target => s.handler.backendAddr = some target
  | .lost .. => s.handler.state.queriesProcessed = 0 → s.refused
  | .view _ | .send _ | .hold _ | .lift _ | .client .. | .deliver _ | .wake | .idle | .close => True

instance (s : Session) : ∀ e, Decidable (Steady s e)
  | .follow _ => inferInstanceAs (Decidable (_ → _ → _))
  | .lost .. => inferInstanceAs (Decidable (_ → _))
  | .view _ | .send _ | .hold _ | .lift _ | .client .. | .deliver _ | .wake | .idle | .close =>
    isTrue trivial

variable {status : TransactionStatus}

section Startup
variable {p q : Phase} {m : Message} {ms : List Message} {l : List Sent}

/-- A message that a session so far into its startup may be shown. -/
def Phase.accept (p : Phase) (m : Sent) : Option Phase :=
  if m.startup = decide (p ≠ .ready) then p.send m.message else none

def Phase.accepts : Phase → List Sent → Option Phase
  | p, [] => some p
  | p, m::ms => (p.accept m).bind fun q => q.accepts ms

theorem accepts_append (p : Phase) (l₁ l₂ : List Sent) :
    p.accepts (l₁++l₂) = (p.accepts l₁).bind fun q => q.accepts l₂ := by
  induction l₁ generalizing p with
  | nil => rfl
  | cons m l₁ ih =>
    rw [cons_append,Phase.accepts,Phase.accepts,Option.bind_assoc]
    congr 1
    funext q
    exact ih q

theorem accepts_split {l₁ l₂ : List Sent} (h : p.accepts (l₁++l₂) = some q) :
    ∃ r, p.accepts l₁ = some r ∧ r.accepts l₂ = some q := by
  rw [accepts_append] at h
  exact Option.bind_eq_some_iff.1 h

theorem sends_append (p : Phase) (l₁ l₂ : List Message) :
    p.sends (l₁++l₂) = (p.sends l₁).bind fun q => q.sends l₂ := by
  induction l₁ generalizing p with
  | nil => rfl
  | cons m l₁ ih =>
    rw [cons_append,Phase.sends,Phase.sends,Option.bind_assoc]
    congr 1
    funext q
    exact ih q

theorem send_ready (h : Phase.send .ready m = some q) : q = .ready := by
  cases m <;> cases h <;> rfl

theorem sends_ready (h : Phase.sends .ready ms = some q) : q = .ready := by
  induction ms with
  | nil =>
    cases h
    rfl
  | cons m ms ih =>
    obtain ⟨r,hr,hre⟩ := Option.bind_eq_some_iff.1 h
    rw [send_ready hr] at hre
    exact ih hre

theorem send_readyForQuery (h : p.send (.readyForQuery status) = some q) : q = .ready := by
  cases p with
  | authenticating => cases h
  | authenticated =>
    rw [Phase.send,Option.ite_none_right_eq_some] at h
    exact (Option.some.inj h.2).symm
  | ready => exact send_ready h

theorem accept_eq_some {m : Sent} (h : p.accept m = some q) :
    m.startup = decide (p ≠ .ready) ∧ p.send m.message = some q := by
  rwa [Phase.accept,Option.ite_none_right_eq_some] at h

theorem accepts_ready (h : Phase.accepts .ready l = some q) : q = .ready := by
  induction l with
  | nil =>
    cases h
    rfl
  | cons m l ih =>
    obtain ⟨r,hr,hre⟩ := Option.bind_eq_some_iff.1 h
    rw [send_ready (accept_eq_some hr).2] at hre
    exact ih hre

theorem accepts_readyForQuery {m : Sent} (hm : m ∈ l) (hs : m.message = .readyForQuery status)
    (h : p.accepts l = some q) : q = .ready := by
  obtain ⟨a,b,rfl⟩ := append_of_mem hm
  obtain ⟨r,-,hb⟩ := accepts_split h
  obtain ⟨r',hr,hb⟩ := Option.bind_eq_some_iff.1 hb
  have hse := (accept_eq_some hr).2
  rw [hs] at hse
  rw [send_readyForQuery hse] at hb
  exact accepts_ready hb

theorem accepts_outgoing (connection : ℕ) (h : p.sends ms = some q) :
    p.accepts (outgoing connection p ms) = some q := by
  induction ms generalizing p with
  | nil => exact h
  | cons m ms ih =>
    obtain ⟨r,hr,hre⟩ := Option.bind_eq_some_iff.1 h
    rw [outgoing,Phase.accepts,Phase.accept,if_pos rfl]
    dsimp only
    rw [hr]
    exact ih hre

theorem length_outgoing (connection : ℕ) (p : Phase) (ms : List Message) :
    (outgoing connection p ms).length = ms.length := by
  induction ms generalizing p with
  | nil => rfl
  | cons m ms ih => exact congrArg (·+1) (ih _)

theorem outgoing_append (connection : ℕ) {l₁ : List Message} (h : p.sends l₁ = some q)
    (l₂ : List Message) :
    outgoing connection p (l₁++l₂) = outgoing connection p l₁++outgoing connection q l₂ := by
  induction l₁ generalizing p with
  | nil =>
    cases h
    rfl
  | cons m l₁ ih =>
    obtain ⟨r,hr,hre⟩ := Option.bind_eq_some_iff.1 h
    rw [cons_append,outgoing,outgoing,hr,cons_append]
    exact congrArg _ (ih hre)

theorem connection_outgoing (connection : ℕ) (p : Phase) (ms : List Message) :
    ∀ m ∈ outgoing connection p ms, m.connection = connection := by
  induction ms generalizing p with
  | nil => exact fun m hm => absurd hm not_mem_nil
  | cons m ms ih => exact forall_mem_cons.2 ⟨rfl,ih _⟩

def Phase.authentications : Phase → ℕ
  | .authenticating => 0
  | .authenticated | .ready => 1

def Phase.readies : Phase → ℕ
  | .authenticating | .authenticated => 0
  | .ready => 1

theorem accept_count {m : Sent} (h : p.accept m = some q) :
    p.authentications+(if isAuthenticationOk m then 1 else 0) = q.authentications ∧
      p.readies+(if isStartupReady m then 1 else 0) = q.readies := by
  obtain ⟨hst,hs⟩ := accept_eq_some h
  obtain ⟨connection,startup,message⟩ := m
  dsimp only at hst hs
  subst hst
  cases p <;> cases message <;> simp only [Phase.send,reduceCtorEq,Option.some.injEq] at hs
  case authenticating.authentication code =>
    subst hs
    by_cases hc : code = 0 <;>
      simp [isAuthenticationOk,isStartupReady,hc,Phase.authentications,Phase.readies]
  case authenticated.readyForQuery status =>
    rw [send_readyForQuery (p := .authenticated) hs]
    exact ⟨rfl,rfl⟩
  all_goals
    subst hs
    exact ⟨rfl,rfl⟩

theorem accepts_count (h : p.accepts l = some q) :
    p.authentications+l.countP isAuthenticationOk = q.authentications ∧
      p.readies+l.countP isStartupReady = q.readies := by
  induction l generalizing p with
  | nil =>
    cases h
    exact ⟨rfl,rfl⟩
  | cons m l ih =>
    obtain ⟨r,hr,hre⟩ := Option.bind_eq_some_iff.1 h
    have hc := accept_count hr
    have hl := ih hre
    rw [countP_cons,countP_cons]
    omega

end Startup

/-- What holds of a session that goes on: the client has been shown, and will be shown, one startup
and what follows it. -/
structure Inv (s : Session) : Prop where
  stream : Phase.accepts .authenticating (s.written++s.pending) = some s.phase
  processed : s.handler.state.queriesProcessed ≠ 0 →
    Phase.accepts .authenticating s.written = some .ready
  own : ∀ m ∈ s.pending, m.connection = s.connection
  challenge : ∀ c, s.challenge = some c → c = s.connection ∧
    Phase.accepts .authenticating s.written = some .authenticating
  responses : ∀ r ∈ s.responses, r.1 = r.2

def Held (s : Session) : Prop := s.handler.told ≠ none ∨ s.refused ∨ Inv s

section Step
variable {sql : Parser} {s s' : Session}

theorem announce_told (h : Handler) (e : Error) : (h.announce e).told ≠ none := by
  rw [Handler.announce]
  cases h.told with
  | none => exact Option.some_ne_none _
  | some _ => exact Option.some_ne_none _

theorem inv_handler {h : Handler} (hi : Inv s)
    (hq : h.state.queriesProcessed = s.handler.state.queriesProcessed) (position : Position) :
    Inv {s with handler := h, position := position} :=
  {hi with processed := fun hne => hi.processed (hq ▸ hne)}

theorem pending_moved {m : Moved} {p : Phase} (connection : ℕ) (hm : m.Started)
    (hp : Phase.sends .authenticating m.sent = some p) :
    Phase.sends .ready m.rest = some p ∧
      (outgoing connection .authenticating m.sent).drop (m.sent.length-m.rest.length) =
        outgoing connection .ready m.rest := by
  obtain ⟨front,status,back,hs⟩ := hm
  have ha : m.sent = (front++.readyForQuery status::back)++m.rest := by
    rw [hs,append_assoc,cons_append]
  rw [ha,sends_append] at hp
  obtain ⟨r,hf,hrs⟩ := Option.bind_eq_some_iff.1 hp
  have hr : r = .ready := by
    rw [sends_append] at hf
    obtain ⟨r₁,-,hb⟩ := Option.bind_eq_some_iff.1 hf
    obtain ⟨r₂,hre,hb⟩ := Option.bind_eq_some_iff.1 hb
    rw [send_readyForQuery hre] at hb
    exact sends_ready hb
  subst hr
  refine ⟨hrs,?_⟩
  rw [ha,outgoing_append connection hf]
  refine drop_left' ?_
  simp only [length_outgoing,length_append,Nat.add_sub_cancel]

theorem inv_moved {h : Handler} {m : Moved} {p : Phase} (hi : Inv s) (hm : m.Started)
    (hne : s.handler.state.queriesProcessed ≠ 0)
    (hp : Phase.sends .authenticating m.sent = some p) :
    Inv {s with
      handler := h
      connection := s.connection+1
      phase := p
      pending := (outgoing (s.connection+1) .authenticating m.sent).drop
        (m.sent.length-m.rest.length)} := by
  obtain ⟨hr,hpe⟩ := pending_moved (s.connection+1) hm hp
  have hs := hi.processed hne
  rw [hpe]
  constructor
  · rw [accepts_append,hs]
    exact accepts_outgoing (s.connection+1) hr
  · exact fun _ => hs
  · exact connection_outgoing (s.connection+1) .ready m.rest
  · intro c hc
    have hco := (hi.challenge c hc).2
    rw [hs] at hco
    cases hco
  · exact hi.responses

theorem held_conclude {position : Position} {r : Outcome (Option Moved)} (hi : Inv s)
    (hs : ∀ moved, r.2 = .ok moved →
      r.1.state.queriesProcessed = s.handler.state.queriesProcessed)
    (hmo : ∀ m, r.2 = .ok (some m) → m.Started ∧ s.handler.state.queriesProcessed ≠ 0)
    (h : s.conclude position r = some s') : Held s' := by
  obtain ⟨h₁,result⟩ := r
  cases result with
  | error e =>
    cases h
    exact .inl (announce_told h₁ e)
  | ok moved =>
    refine .inr (.inr ?_)
    cases moved with
    | none =>
      cases h
      exact inv_handler hi (hs none rfl) position
    | some m =>
      obtain ⟨p,hp,rfl⟩ := Option.map_eq_some_iff.1 h
      obtain ⟨hm,hne⟩ := hmo m rfl
      exact inv_moved (inv_handler hi rfl position) hm hne hp

theorem conclude_written {position : Position} {r : Outcome (Option Moved)}
    (h : s.conclude position r = some s') : s'.written = s.written := by
  obtain ⟨h₁,_ | _ | m⟩ := r
  · cases h
    rfl
  · cases h
    rfl
  · obtain ⟨p,-,rfl⟩ := Option.map_eq_some_iff.1 h
    rfl

theorem respond_written (s : Session) (batch : List Frontend) :
    (s.respond batch).written = s.written := by
  rw [Session.respond]
  split_ifs <;> rfl

theorem written_step {e : Event} (h : step sql s e = some s') : ∃ l, s'.written = s.written++l := by
  have hk : s'.written = s.written → ∃ l, s'.written = s.written++l :=
    fun heq => ⟨[],by rw [heq,append_nil]⟩
  rw [step.eq_def,Option.ite_none_left_eq_some] at h
  obtain ⟨-,h⟩ := h
  cases e
  case view =>
    cases h
    exact hk rfl
  case send =>
    obtain ⟨p,-,rfl⟩ := Option.map_eq_some_iff.1 h
    exact hk rfl
  all_goals replace h := (Option.ite_none_right_eq_some.1 h).2
  case client lease batch => exact hk ((conclude_written h).trans (respond_written s batch))
  case hold | lift | follow | lost => exact hk (conclude_written h)
  all_goals cases h
  case deliver n => exact ⟨s.pending.take n,rfl⟩
  all_goals exact hk rfl

theorem refused_step {e : Event} (h : step sql s e = some s') (hr : s.refused) : s'.refused := by
  obtain ⟨l,hl⟩ := written_step h
  rw [Session.refused,hl,any_append]
  rw [Session.refused] at hr
  rw [hr,Bool.true_or]

theorem queriesProcessed_observe {g : ConnectionState} {m : Backend}
    (h : (observeOne g m).queriesProcessed ≠ g.queriesProcessed) :
    ∃ status, m = .readyForQuery status := by
  rw [observeOne_eq] at h
  cases m with
  | readyForQuery status => exact ⟨status,rfl⟩
  | parseComplete | closeComplete | errorResponse =>
    exact absurd (acknowledge_settles g _).queriesProcessed h
  | _ => exact absurd rfl h

theorem queriesProcessed_processBackendData {g : ConnectionState} {messages : List Backend}
    (h : (processBackendData g messages).queriesProcessed ≠ 0) :
    g.queriesProcessed ≠ 0 ∨ ∃ status, .readyForQuery status ∈ messages := by
  rw [processBackendData_eq_foldl] at h
  induction messages generalizing g with
  | nil => exact .inl h
  | cons m messages ih =>
    rcases ih h with hq | ⟨status,hm⟩
    · by_cases hs : (observeOne g m).queriesProcessed = g.queriesProcessed
      · exact .inl (hs ▸ hq)
      · obtain ⟨status,rfl⟩ := queriesProcessed_observe hs
        exact .inr ⟨status,mem_cons_self⟩
    · exact .inr ⟨status,mem_cons_of_mem _ hm⟩

theorem queriesProcessed_processClientData (sql : Parser) (g : ConnectionState) (batch : List Frontend) :
    (Gateway.processClientData sql g batch).queriesProcessed = g.queriesProcessed := by
  rw [processClientData_eq_foldl]
  induction batch generalizing g with
  | nil => rfl
  | cons m batch ih => exact (ih _).trans (forwardOne_queriesProcessed sql g m)

theorem challenge_shown {p q : Phase} {l : List Sent} {challenge : Option ℕ} {connection c : ℕ}
    (h : p.accepts l = some q) (ho : ∀ m ∈ l, m.connection = connection)
    (hop : ∀ c, challenge = some c → c = connection ∧ p = .authenticating)
    (hc : l.foldl shown challenge = some c) : c = connection ∧ q = .authenticating := by
  induction l generalizing p challenge with
  | nil =>
    cases h
    exact hop c hc
  | cons m l ih =>
    obtain ⟨r,hr,hre⟩ := Option.bind_eq_some_iff.1 h
    obtain ⟨hm,ho⟩ := forall_mem_cons.1 ho
    refine ih hre ho (fun c hc => ?_) hc
    have hs := (accept_eq_some hr).2
    obtain ⟨_,startup,message⟩ := m
    cases message with
    | authentication code =>
      rw [shown] at hc
      dsimp only at hc hm hs
      split_ifs at hc with hco
      cases hc
      refine ⟨hm,?_⟩
      cases p with
      | authenticating =>
        rw [Phase.send,if_neg hco] at hs
        exact (Option.some.inj hs).symm
      | authenticated | ready => cases hs
    | errorResponse _ | other =>
      obtain ⟨ho,rfl⟩ := hop c hc
      cases hs
      exact ⟨ho,rfl⟩
    | _ =>
      obtain ⟨-,rfl⟩ := hop c hc
      cases hs

theorem readyForQuery_of_observed {m : Message} (h : m.observed = .readyForQuery status) :
    m = .readyForQuery status := by
  cases m with
  | readyForQuery _ =>
    cases h
    rfl
  | _ => cases h

theorem inv_deliver (hi : Inv s) (n : ℕ) :
    Inv {s with
      position := .upgrade
      handler := {s.handler with
        state := processBackendData s.handler.state
          ((s.pending.take n).map fun m => m.message.observed)}
      pending := s.pending.drop n
      written := s.written++s.pending.take n
      challenge := (s.pending.take n).foldl shown s.challenge} := by
  have hs : Phase.accepts .authenticating ((s.written++s.pending.take n)++s.pending.drop n) =
      some s.phase := by
    rw [append_assoc,take_append_drop]
    exact hi.stream
  obtain ⟨q,hq,-⟩ := accepts_split hs
  obtain ⟨p,hp,ht⟩ := accepts_split hq
  constructor
  · exact hs
  · intro hne
    dsimp only
    rw [hq]
    rcases queriesProcessed_processBackendData hne with hb | ⟨status,hme⟩
    · have hse := hi.processed hb
      rw [hp] at hse
      cases hse
      rw [accepts_ready ht]
    · obtain ⟨m,hm,ho⟩ := mem_map.1 hme
      rw [accepts_readyForQuery hm (readyForQuery_of_observed ho) ht]
  · exact fun m hm => hi.own m (mem_of_mem_drop hm)
  · intro c hc
    have hsh := challenge_shown ht (fun m hm => hi.own m (mem_of_mem_take hm))
      (fun c hc => ?_) hc
    · exact ⟨hsh.1,hq.trans (congrArg some hsh.2)⟩
    · obtain ⟨how,ha⟩ := hi.challenge c hc
      rw [hp] at ha
      exact ⟨how,Option.some.inj ha⟩
  · exact hi.responses

theorem inv_respond (hi : Inv s) (batch : List Frontend) : Inv (s.respond batch) := by
  rw [Session.respond]
  split_ifs
  · refine {hi with challenge := fun c hc => (by cases hc), responses := fun r hr => ?_}
    rcases mem_append.1 hr with hr | hr
    · exact hi.responses r hr
    · obtain ⟨c,hc,rfl⟩ := mem_map.1 hr
      exact (hi.challenge c (Option.mem_toList.1 hc)).1
  · exact hi

theorem respond_handler (s : Session) (batch : List Frontend) :
    (s.respond batch).handler = s.handler := by
  rw [Session.respond]
  split_ifs <;> rfl

theorem stayed_eq_ok {r : Outcome Unit} {moved : Option Moved} (h : (stayed r).2 = .ok moved) :
    r.2 = .ok () ∧ moved = none ∧ (stayed r).1 = r.1 := by
  obtain ⟨_,hok,heq⟩ := andThen_eq_ok h
  rw [stayed,heq] at h
  cases h
  exact ⟨hok,rfl,by rw [stayed,heq]⟩

theorem held_stayed {position : Position} {r : Outcome Unit} (hi : Inv s)
    (hs : r.2 = .ok () → r.1.state.queriesProcessed = s.handler.state.queriesProcessed)
    (h : s.conclude position (stayed r) = some s') : Held s' := by
  refine held_conclude hi (fun moved hok => ?_) (fun m hok => ?_) h
  · obtain ⟨hr,-,heq⟩ := stayed_eq_ok hok
    rw [heq]
    exact hs hr
  · cases (stayed_eq_ok hok).2.1

theorem queriesProcessed_forward (sql : Parser) (h : Handler) (lease : LeaseView)
    (batch : List Frontend) :
    (h.processClientData sql lease batch).1.state.queriesProcessed = h.state.queriesProcessed := by
  have hb := queriesProcessed_processClientData sql h.state batch
  rw [Handler.processClientData]
  split_ifs <;> first | rfl | exact hb

theorem held_step {e : Event} (hh : Held s) (hg : Steady s e) (h : step sql s e = some s') :
    Held s' := by
  have hst := h
  rw [step.eq_def,Option.ite_none_left_eq_some] at h
  obtain ⟨hru,h⟩ := h
  rcases hh with hto | hre | hi
  · exact absurd (by simp [Option.isSome_iff_ne_none.2 hto]) hru
  · exact .inr (.inl (refused_step hst hre))
  by_cases hre : s.refused
  · exact .inr (.inl (refused_step hst hre))
  have hk : ∀ r : Outcome Unit, Outcome.Keeps s.handler r → r.2 = .ok () →
      r.1.state.queriesProcessed = s.handler.state.queriesProcessed := by
    intro r hr hok
    rw [Outcome.Keeps,hok] at hr
    rw [hr.state]
  cases e
  case view =>
    cases h
    exact .inr (.inr {hi with})
  case send m =>
    obtain ⟨p,hp,rfl⟩ := Option.map_eq_some_iff.1 h
    refine .inr (.inr {hi with stream := ?_, own := forall_mem_append.2 ⟨hi.own,by simp⟩})
    dsimp only
    rw [← append_assoc,accepts_append,hi.stream]
    have hse : s.phase.sends [m] = some p := by
      rw [Phase.sends,hp]
      rfl
    exact accepts_outgoing s.connection hse
  all_goals replace h := (Option.ite_none_right_eq_some.1 h).2
  case hold later => exact held_stayed hi (hk _ (keeps_waitForUpgradeHoldIfNeeded s.handler later)) h
  case lift later => exact held_stayed hi (hk _ (keeps_waitForFenceIfNeeded s.handler later)) h
  case follow t =>
    refine held_conclude hi (fun moved hok => ?_) (fun m hok => ?_) h
    · rw [(followRoute_ok hok).1.state]
    · obtain ⟨⟨a,-,hf⟩,target,ht,hne⟩ := (followRoute_ok hok).2 m rfl
      refine ⟨hf.2,fun hq => hne ?_⟩
      have hs := hg hq (by simpa using hre)
      rw [ht] at hs
      exact of_decide_eq_true hs
  case client lease batch =>
    refine held_stayed (inv_respond hi batch) (fun _ => ?_) h
    rw [respond_handler]
    exact queriesProcessed_forward sql s.handler lease batch
  case lost giveUp attempts =>
    refine held_conclude hi (fun moved hok => ?_) (fun m hok => ?_) h
    · rw [(handleBackendDisconnect_ok hok).1.state]
    · obtain ⟨a,-,hf⟩ := (handleBackendDisconnect_ok hok).2 m rfl
      exact ⟨hf.2,fun hq => hre (hg hq)⟩
  all_goals cases h
  · exact .inr (.inr (inv_deliver hi _))
  · exact .inr (.inr (inv_handler hi rfl .upgrade))
  · exact .inl (Option.some_ne_none _)
  · exact .inr (.inr {hi with})

theorem inv_connected (addr : SocketAddr) (v : View) : Inv (connected addr v) where
  stream := rfl
  processed hne := absurd rfl hne
  own m hm := absurd hm not_mem_nil
  challenge c hc := by cases hc
  responses r hr := absurd hr not_mem_nil

theorem authentications_le (p : Phase) : p.authentications ≤ 1 := by
  cases p <;> decide

theorem readies_le (p : Phase) : p.readies ≤ 1 := by
  cases p <;> decide

theorem shown_count {l : List Sent} {q : Phase} (h : Phase.accepts .authenticating l = some q) :
    l.countP isAuthenticationOk = q.authentications ∧ l.countP isStartupReady = q.readies := by
  have hc := accepts_count h
  rwa [Phase.authentications,Phase.readies,Nat.zero_add,Nat.zero_add] at hc

theorem isStartupReady_iff {m : Sent} :
    isStartupReady m ↔ m.startup ∧ ∃ status, m.message = .readyForQuery status := by
  obtain ⟨_,startup,message⟩ := m
  cases message <;> simp [isStartupReady]

theorem eq_ready_of_late {p q : Phase} {m : Sent} (h : p.accept m = some q)
    (hm : m.startup = false) : p = .ready := by
  have hs := (accept_eq_some h).1
  rw [hm] at hs
  simpa using hs

theorem eq_authenticated_of_ready {p q : Phase} {m : Sent} (h : p.accept m = some q)
    (hm : isStartupReady m) : p = .authenticated := by
  obtain ⟨hs,hse⟩ := accept_eq_some h
  obtain ⟨hm,status,hst⟩ := isStartupReady_iff.1 hm
  rw [hst] at hse
  cases p with
  | authenticating => cases hse
  | authenticated => rfl
  | ready =>
    rw [hm] at hs
    cases hs

theorem seesStartup_of_inv (hi : Inv s) : SeesStartup s := by
  obtain ⟨q,hq,hpe⟩ := accepts_split hi.stream
  obtain ⟨hau,hre⟩ := shown_count hq
  -- the phase in which a message was shown says what was shown before it
  have hs : ∀ a m b, s.written = a++m::b → ∃ p r : Phase, p.accept m = some r ∧
      a.countP isAuthenticationOk = p.authentications ∧ a.countP isStartupReady = p.readies := by
    intro a m b hw
    rw [hw] at hq
    obtain ⟨p,hp,hb⟩ := accepts_split hq
    obtain ⟨r,hr,-⟩ := Option.bind_eq_some_iff.1 hb
    exact ⟨p,r,hr,shown_count hp⟩
  constructor
  · rw [hau]
    exact authentications_le q
  · rw [hre]
    exact readies_le q
  · intro a m b hw hm
    obtain ⟨p,r,hr,ha,-⟩ := hs a m b hw
    rw [ha,eq_authenticated_of_ready hr hm]
    rfl
  · intro a m b hw hm
    obtain ⟨p,r,hr,ha⟩ := hs a m b hw
    rw [eq_ready_of_late hr hm] at ha
    exact ha
  · intro hph hla
    have hd : q = .ready := by
      cases hl : s.pending with
      | nil =>
        rw [hl] at hpe
        exact (Option.some.inj hpe).trans hph
      | cons m l =>
        rw [hl] at hpe hla
        obtain ⟨r,hr,-⟩ := Option.bind_eq_some_iff.1 hpe
        exact eq_ready_of_late hr (hla m mem_cons_self)
    rw [hau,hre,hd]
    exact ⟨rfl,rfl⟩
  · exact hi.responses

end Step

/-- In every session that is steady until the client has seen its startup, the client sees it once,
before all else, and its authentication responses reach the backend they are for. -/
theorem startup_seen (sql : Parser) (addr : SocketAddr) (v : View) (es : List Event) (s : Session)
    (hsteady : Guarded (step sql) Steady (connected addr v) es)
    (hrun : run (step sql) (connected addr v) es = some s) (htold : s.handler.told = none)
    (hrefused : s.refused = false) : SeesStartup s := by
  have hh : Held s := run_invariant_guarded (fun s e s' hi hg h => held_step hi hg h)
    (.inr (.inr (inv_connected addr v))) hsteady hrun
  rcases hh with h | h | h
  · exact absurd htold h
  · rw [hrefused] at h
    cases h
  · exact seesStartup_of_inv h

def blue : SocketAddr := .v4 #[10,0,0,1].toVector 5434

def green : SocketAddr := .v4 #v[10,0,0,9] 5434

def leadBy (addr : SocketAddr) : View := {leader := some addr}

def attemptAt (addr : SocketAddr) (sent : List Message) : Attempt :=
  {view := leadBy addr, routed := leadBy addr, sent := sent}

def turn (addr : SocketAddr) (sent : List Message) : List Event :=
  [.hold none,.lift none,.follow {attempt := attemptAt addr sent}]

/-- A session that authenticates, and moves once its route does. -/
def movedSession : List Event :=
  turn blue []++([.send (.authentication 10),.deliver 1] : List Event)++turn blue []++
    ([.client {} [.password]] : List Event)++turn blue []++
    ([.send (.authentication 0),.send (.readyForQuery .idle),.deliver 2,.view (leadBy green)] : List Event)++
    turn green [.authentication 0,.readyForQuery .idle]

theorem startup_seen_movedSession : ∃ s, run (step rejecting) (connected blue (leadBy blue))
    movedSession = some s ∧ s.connection = 1 ∧ s.responses = [(0,0)] ∧ SeesStartup s := by
  have hst : Guarded (step rejecting) Steady (connected blue (leadBy blue)) movedSession := by
    decide +kernel
  have hru : (run (step rejecting) (connected blue (leadBy blue)) movedSession).any fun s =>
      decide (s.connection = 1 ∧ s.responses = [(0,0)] ∧ s.handler.told = none ∧
        s.refused = false) := by decide +kernel
  obtain ⟨s,hs,hs'⟩ := (Option.any_eq_true _ _).1 hru
  obtain ⟨hc,hr,ht,hre⟩ := of_decide_eq_true hs'
  exact ⟨s,hs,hc,hr,startup_seen rejecting blue (leadBy blue) movedSession s hst hs ht hre⟩

/-- The route moves before the first backend has answered. -/
def movedAtOnce : List Event :=
  .view (leadBy green)::turn green [.authentication 0,.readyForQuery .idle]

/-- The route moves while the client answers an authentication request. -/
def movedWhileAnswering : List Event :=
  turn blue []++([.send (.authentication 10),.deliver 1,.view (leadBy green)] : List Event)++
    turn green [.authentication 0,.readyForQuery .idle]++([.client {} [.password]] : List Event)

/-- The backend is lost before it has answered. -/
def lostAtOnce : List Event :=
  turn blue []++[.lost .deadline [attemptAt blue [.authentication 0,.readyForQuery .idle]]]

/-- A client that is never shown the end of its startup, whether the route moves or the backend is
lost, and a client whose authentication response goes to a backend that did not ask for it. -/
theorem startup_unseen :
    (∀ es ∈ [movedAtOnce,lostAtOnce], ∃ s,
      run (step rejecting) (connected blue (leadBy blue)) es = some s ∧ s.handler.told = none ∧ s.refused = false ∧ s.written = [] ∧ ¬SeesStartup s) ∧
    ∃ s, run (step rejecting) (connected blue (leadBy blue)) movedWhileAnswering = some s ∧
      s.handler.told = none ∧ s.refused = false ∧ s.responses = [(0,1)] ∧ ¬SeesStartup s := by
  constructor
  · intro es hes
    have hru : ∀ es ∈ [movedAtOnce,lostAtOnce],
        (run (step rejecting) (connected blue (leadBy blue)) es).any fun s =>
          decide (s.handler.told = none ∧ s.refused = false ∧ s.written = [] ∧ s.phase = .ready ∧
            s.pending = []) := by decide +kernel
    obtain ⟨s,hs,hs'⟩ := (Option.any_eq_true _ _).1 (hru es hes)
    obtain ⟨ht,hre,hw,hph,hp⟩ := of_decide_eq_true hs'
    refine ⟨s,hs,ht,hre,hw,fun hse => ?_⟩
    have hf := (hse.finished hph (by simp [hp])).1
    rw [hw] at hf
    cases hf
  · have hru : (run (step rejecting) (connected blue (leadBy blue)) movedWhileAnswering).any fun s =>
        decide (s.handler.told = none ∧ s.refused = false ∧ s.responses = [(0,1)]) := by
      decide +kernel
    obtain ⟨s,hs,hs'⟩ := (Option.any_eq_true _ _).1 hru
    obtain ⟨ht,hre,hr⟩ := of_decide_eq_true hs'
    refine ⟨s,hs,ht,hre,hr,fun hse => ?_⟩
    have ho := hse.responses (0,1) (by simp [hr])
    cases ho

end SessionStartup
end PgBattery
