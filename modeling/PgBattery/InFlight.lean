import PgBattery.PgBackend
import PgBattery.TransitionSystem

/-! When the gateway calls a session migratable, and whether the backend then still owes it an
answer. -/
namespace PgBattery
namespace InFlight
open Postcard Analysis Gateway PgBackend TransitionSystem List

/-- A session: what has been forwarded and not been read, and what has been sent and not been
processed, are in between the gateway and its backend. -/
structure Session where
  gateway : ConnectionState := {}
  inbox : List Frontend := []
  backend : Server := {}
  outbox : List Backend := []

inductive Event
  | client (batch : List Frontend)
  | authenticate (read : ℕ)
  | start
  | serve (reply : Reply)
  | fatal
  | deliver (n : ℕ)

def step (sql : Parser) (s : Session) : Event → Option Session
  | .client batch =>
    some {s with gateway := processClientData sql s.gateway batch, inbox := s.inbox++batch}
  | .authenticate read =>
    if s.backend.alive ∧ !s.backend.started ∧ (s.inbox.take read).all (· = .password) then
      some {s with inbox := s.inbox.drop read, outbox := s.outbox++[.other]}
    else none
  | .start =>
    if s.backend.alive ∧ !s.backend.started then
      some {s with
        backend := {s.backend with started := true}
        outbox := s.outbox++[.readyForQuery .idle]}
    else none
  | .serve reply => match s.inbox with
    | [] => none
    | m::inbox => (s.backend.serve m reply).map fun (backend,answer) =>
      {s with inbox := inbox, backend := backend, outbox := s.outbox++answer}
  | .fatal =>
    if s.backend.alive then
      some {s with
        backend := {s.backend with alive := false}
        outbox := s.outbox++[.errorResponse]}
    else none
  | .deliver n =>
    some {s with
      gateway := processBackendData s.gateway (s.outbox.take n)
      outbox := s.outbox.drop n}

def owesReady : Frontend → Bool
  | .query _ | .sync | .functionCall => true
  | .parse _ | .bind | .describe | .execute | .close _ | .flush | .copyData | .copyDone | .copyFail
  | .password => false

def isRequest (m : Frontend) : Bool := owesReady m || (accountForwardedMessage none m).isSome

/-- Every forwarded request has its complete answer, and the backend is outside any transaction. -/
structure Answered (s : Session) : Prop where
  read : ∀ m ∈ s.inbox, isRequest m = false
  skipping : s.backend.skipping = false
  copy : s.backend.copy = none
  unsynced : s.backend.unsynced = false
  tx : s.backend.tx = .idle

instance (s : Session) : Decidable (Answered s) :=
  decidable_of_iff ((∀ m ∈ s.inbox, isRequest m = false) ∧ s.backend.skipping = false ∧
      s.backend.copy = none ∧ s.backend.unsynced = false ∧ s.backend.tx = .idle)
    ⟨fun ⟨h₁,h₂,h₃,h₄,h₅⟩ => ⟨h₁,h₂,h₃,h₄,h₅⟩,
      fun h => ⟨h.read,h.skipping,h.copy,h.unsynced,h.tx⟩⟩

/-- No Query, Sync or FunctionCall is forwarded before the startup's ReadyForQuery is processed. -/
def Waits (s : Session) : Event → Prop
  | .client batch => s.gateway.queriesProcessed = 0 → ∀ m ∈ batch, owesReady m = false
  | .authenticate _ | .start | .serve _ | .fatal | .deliver _ => True

instance (s : Session) : ∀ e, Decidable (Waits s e)
  | .client _ => inferInstanceAs (Decidable (_ → _))
  | .authenticate _ | .start | .serve _ | .fatal | .deliver _ => isTrue trivial

def isReadyForQuery : Backend → Bool
  | .readyForQuery _ => true
  | .parseComplete | .closeComplete | .errorResponse | .copyInResponse | .copyOutResponse
  | .copyBothResponse | .other => false

/-- The status the gateway holds once it has processed the messages. -/
def statusAfter (status : TransactionStatus) (messages : List Backend) : TransactionStatus :=
  messages.foldl (fun status m => match m with
    | .readyForQuery status => status
    | .parseComplete | .closeComplete | .errorResponse | .copyInResponse | .copyOutResponse
    | .copyBothResponse | .other => status) status

def openAfter (unsynced : Bool) (messages : List Frontend) : Bool :=
  messages.foldl (fun unsynced m => (accountForwardedMessage none m).getD unsynced) unsynced

def owedByCopy (b : Server) : ℕ := if b.copy = some .simple then 1 else 0

/-- How many ReadyForQuery the gateway may still see. -/
def owed (s : Session) : ℕ :=
  s.outbox.countP isReadyForQuery+s.inbox.countP owesReady+owedByCopy s.backend

def awaitedReady (s : Session) : ℕ := s.gateway.awaiting.countP Awaited.isReady

/-- Before the gateway has seen the startup's ReadyForQuery. -/
structure Fresh (s : Session) : Prop where
  quiet : s.inbox.countP owesReady = 0
  copy : owedByCopy s.backend = 0
  readies : s.outbox.countP isReadyForQuery = if s.backend.started then 1 else 0
  idle : statusAfter .idle s.outbox = .idle
  unowed : awaitedReady s = 0
  opened : openAfter s.backend.unsynced s.inbox → s.gateway.extendedUnsynced
  tx : .idle = s.backend.tx ∨ s.backend.unsynced

/-- After it: no more is owed than awaited, and what was lost is awaited in vain. -/
structure Busy (s : Session) : Prop where
  started : s.backend.started
  counted : owed s ≤ awaitedReady s
  opened : openAfter s.backend.unsynced s.inbox →
    s.gateway.extendedUnsynced ∨ owed s < awaitedReady s
  status : statusAfter s.gateway.txStatus s.outbox = s.backend.tx ∨ s.backend.unsynced ∨
    owedByCopy s.backend = 1

structure Server.Coherent (b : Server) : Prop where
  skipping : b.skipping → b.unsynced
  copying : b.copy = some .extended → b.unsynced
  awake : b.copy ≠ none → b.skipping = false

structure Core (s : Session) : Prop where
  coherent : Server.Coherent s.backend
  fresh : s.gateway.queriesProcessed = 0 → Fresh s ∧ s.gateway.txStatus = .idle
  busy : 0 < s.gateway.queriesProcessed → Busy s

/-- Once the session is marked it is never migratable again. -/
def Inv (s : Session) : Prop := s.gateway.notMigratable ∨ Core s

section Messages
variable {messages : List Backend}

theorem countP_ready_inert (h : messages.all inert) : messages.countP isReadyForQuery = 0 := by
  rw [countP_eq_zero]
  intro m hm
  have hi := all_eq_true.1 h m hm
  cases m with
  | readyForQuery status => cases hi
  | _ => simp [isReadyForQuery]

theorem statusAfter_of_countP (h : messages.countP isReadyForQuery = 0) (status : TransactionStatus) :
    statusAfter status messages = status := by
  induction messages with
  | nil => rfl
  | cons m messages ih =>
    cases m with
    | readyForQuery status => simp [isReadyForQuery] at h
    | _ => exact ih (by simpa [isReadyForQuery] using h)

theorem statusAfter_append (status : TransactionStatus) (l₁ l₂ : List Backend) :
    statusAfter status (l₁++l₂) = statusAfter (statusAfter status l₁) l₂ := foldl_append ..

theorem openAfter_mono {u v : Bool} (h : u → v) (messages : List Frontend) :
    openAfter u messages → openAfter v messages := by
  induction messages generalizing u v with
  | nil => exact h
  | cons m messages ih =>
    apply ih
    dsimp only
    cases accountForwardedMessage none m with
    | none => exact h
    | some _ => exact id

end Messages

structure Served (b : Server) (m : Frontend) (b' : Server) (answer : List Backend) : Prop where
  started : b'.started = b.started
  coherent : Server.Coherent b'
  counted : answer.countP isReadyForQuery+owedByCopy b' ≤
    (if owesReady m then 1 else 0)+owedByCopy b
  opened : b'.unsynced → (accountForwardedMessage none m).getD b.unsynced ∨
    answer.countP isReadyForQuery+owedByCopy b' < (if owesReady m then 1 else 0)+owedByCopy b
  status : ∀ status, (status = b.tx ∨ b.unsynced ∨ owedByCopy b = 1) →
    (statusAfter status answer = b'.tx ∨ b'.unsynced ∨ owedByCopy b' = 1)

variable {complete : List Backend} {l : List Frontend}

section Answers
variable {b b' : Server} {r : Reply} {answer : List Backend}

theorem answerReady_spec (h : b.answerReady r = some (b',answer)) (hr : r.body.all inert) :
    ∃ status, b' = {b with tx := status} ∧ answer.countP isReadyForQuery = 1 ∧
      ∀ before, statusAfter before answer = status := by
  cases r with
  | silent => cases h
  | copyIn body => cases h
  | ok body status =>
    cases h
    have hb := countP_ready_inert hr
    refine ⟨status,rfl,?_,fun before => ?_⟩
    · rw [countP_append,show body.countP isReadyForQuery = 0 from hb]
      rfl
    · rw [statusAfter_append]
      rfl
  | failed body status =>
    cases h
    have hb := countP_ready_inert hr
    refine ⟨status,rfl,?_,fun before => ?_⟩
    · rw [countP_append,show body.countP isReadyForQuery = 0 from hb]
      rfl
    · rw [statusAfter_append]
      rfl

theorem answerExtended_spec (hc : complete.countP isReadyForQuery = 0)
    (h : b.answerExtended complete r = some (b',answer)) (hr : r.body.all inert) :
    (∃ skipping status, b' = {b with unsynced := true, skipping := skipping, tx := status}) ∧
      answer.countP isReadyForQuery = 0 := by
  cases r with
  | silent => cases h
  | copyIn body => cases h
  | ok body status =>
    cases h
    have hb : body.countP isReadyForQuery = 0 := countP_ready_inert hr
    exact ⟨⟨b.skipping,status,rfl⟩,by rw [countP_append,hb,hc]⟩
  | failed body status =>
    cases h
    have hb : body.countP isReadyForQuery = 0 := countP_ready_inert hr
    exact ⟨⟨true,status,rfl⟩,by rw [countP_append,hb]; rfl⟩

end Answers

section Serve
variable {b b' : Server} {m : Frontend} {r : Reply} {answer : List Backend}

theorem served_silent (hb : Server.Coherent b)
    (hm : b.unsynced → (accountForwardedMessage none m).getD b.unsynced ∨ owesReady m) :
    Served b m b [] where
  started := rfl
  coherent := hb
  counted := by simp
  opened hu := by
    rcases hm hu with h | h
    · exact .inl h
    · exact .inr (by simp [h])
  status _ h := h

theorem served_ready {c : Server} (hs : c.started = b.started) (hc : c.copy = none)
    (hsk : c.skipping → c.unsynced)
    (ho : 1 ≤ (if owesReady m then 1 else 0)+owedByCopy b)
    (hop : c.unsynced → (accountForwardedMessage none m).getD b.unsynced ∨
      1 < (if owesReady m then 1 else 0)+owedByCopy b)
    (h : c.answerReady r = some (b',answer)) (hr : r.body.all inert) : Served b m b' answer := by
  obtain ⟨status,rfl,hco,hst⟩ := answerReady_spec h hr
  have hz : owedByCopy {c with tx := status} = 0 := by simp [owedByCopy,hc]
  constructor
  · exact hs
  · exact ⟨hsk,by simp [hc],by simp [hc]⟩
  · rw [hco,hz]
    exact ho
  · rw [hco,hz]
    exact hop
  · exact fun before _ => .inl (hst before)

theorem served_extended {c : Server} (hc : complete.countP isReadyForQuery = 0)
    (hs : c.started = b.started) (hco : c.copy = none)
    (ho : (accountForwardedMessage none m).getD b.unsynced)
    (h : c.answerExtended complete r = some (b',answer)) (hr : r.body.all inert) :
    Served b m b' answer := by
  obtain ⟨⟨skipping,status,rfl⟩,hcn⟩ := answerExtended_spec hc h hr
  constructor
  · exact hs
  · exact ⟨fun _ => rfl,fun _ => rfl,by simp [hco]⟩
  · rw [hcn]
    simp [owedByCopy,hco]
  · exact fun _ => .inl ho
  · exact fun _ _ => .inr (.inl rfl)

theorem served_copyIn {body : List Backend} (hr : body.all inert) (hs : b'.started = b.started)
    (hb : Server.Coherent b') (how : owedByCopy b' ≤ (if owesReady m then 1 else 0)+owedByCopy b)
    (ho : b'.unsynced → (accountForwardedMessage none m).getD b.unsynced)
    (hst : b'.unsynced ∨ owedByCopy b' = 1) : Served b m b' (body++[.copyInResponse]) := by
  have hc : (body++[Backend.copyInResponse]).countP isReadyForQuery = 0 := by
    rw [countP_append,countP_ready_inert hr]
    rfl
  constructor
  · exact hs
  · exact hb
  · rwa [hc,Nat.zero_add]
  · exact fun hu => .inl (ho hu)
  · exact fun _ _ => .inr hst

theorem inCopy_served {kind : CopyIn} (hb : Server.Coherent b) (hk : b.copy = some kind)
    (h : b.inCopy kind m r = some (b',answer)) (hr : r.body.all inert) : Served b m b' answer := by
  have he : ∀ {r : Reply}, m ≠ .sync → b.answerCopy kind r = some (b',answer) →
      r.body.all inert → Served b m b' answer := by
    intro r hm ha hr
    have ho : b.unsynced → (accountForwardedMessage none m).getD b.unsynced := by
      intro hu
      cases m with
      | sync => exact absurd rfl hm
      | _ => first | rfl | exact hu
    cases kind with
    | simple =>
      have how : owedByCopy b = 1 := by simp [owedByCopy,hk]
      exact served_ready (c := {b with copy := none}) rfl rfl hb.skipping (by omega)
        (fun hu => .inl (ho hu)) ha hr
    | extended =>
      exact served_extended (c := {b with copy := none}) rfl rfl rfl (ho (hb.copying hk)) ha hr
  rcases Server.inCopy_cases h with ⟨hm,_,rfl,rfl⟩ | ⟨body,rfl,rfl,rfl,rfl,rfl⟩ | ⟨hs,_,_,ha⟩
  · refine served_silent hb fun hu => ?_
    rcases hm with rfl | rfl | rfl
    · exact .inl hu
    · exact .inr rfl
    · exact .inl hu
  · exact served_copyIn hr rfl hb (Nat.le_add_left ..) id (.inr (by simp [owedByCopy,hk]))
  · exact he hs ha hr

theorem ready_served (hb : Server.Coherent b) (hk : b.copy = none) (hs : b.skipping = false)
    (h : b.ready m r = some (b',answer)) (hr : r.body.all inert) : Served b m b' answer := by
  have ho : owedByCopy b = 0 := by simp [owedByCopy,hk]
  have hsk : b.skipping → b.unsynced := by simp [hs]
  cases m with
  | query body =>
    cases r with
    | copyIn body =>
      cases h
      exact served_copyIn hr rfl ⟨hsk,by simp,fun _ => hs⟩ (by simp [owedByCopy,owesReady]) id
        (.inr (by simp [owedByCopy]))
    | silent => cases h
    | ok body status =>
      exact served_ready (r := .ok body status) rfl hk hsk (by simp [owesReady]) .inl h hr
    | failed body status =>
      exact served_ready (r := .failed body status) rfl hk hsk (by simp [owesReady]) .inl h hr
  | functionCall => exact served_ready rfl hk hsk (by simp [owesReady]) .inl h hr
  | sync =>
    exact served_ready (c := {b with unsynced := false}) rfl hk (by simp [hs]) (by simp [owesReady])
      (by simp) h hr
  | parse msg => exact served_extended rfl rfl hk rfl h hr
  | close msg => exact served_extended rfl rfl hk rfl h hr
  | bind => exact served_extended rfl rfl hk rfl h hr
  | describe => exact served_extended rfl rfl hk rfl h hr
  | execute =>
    cases r with
    | copyIn body =>
      cases h
      exact served_copyIn hr rfl ⟨fun _ => rfl,fun _ => rfl,fun _ => hs⟩ (by simp [owedByCopy])
        (fun _ => rfl)
        (.inl rfl)
    | silent => cases h
    | ok body status => exact served_extended (r := .ok body status) countP_nil rfl hk rfl h hr
    | failed body status => exact served_extended (r := .failed body status) countP_nil rfl hk rfl h hr
  | password => cases h
  | flush | copyData | copyDone | copyFail =>
    cases r with
    | silent =>
      cases h
      exact served_silent hb .inl
    | _ => cases h

theorem serve_served (hb : Server.Coherent b) (h : b.serve m r = some (b',answer)) :
    b.started ∧ Served b m b' answer := by
  rw [Server.serve.eq_def,Option.ite_none_left_eq_some] at h
  obtain ⟨ha,h⟩ := h
  simp only [Bool.or_eq_true,Bool.not_eq_eq_eq_not,Bool.not_true,not_or,Bool.not_eq_false] at ha
  obtain ⟨⟨_,hst⟩,hr⟩ := ha
  refine ⟨hst,?_⟩
  cases hk : b.copy with
  | some kind =>
    rw [hk] at h
    exact inCopy_served hb hk h hr
  | none =>
    simp only [hk] at h
    by_cases hs : b.skipping
    · rw [if_pos hs] at h
      have hu := hb.skipping hs
      split at h
      · exact served_ready (c := {b with skipping := false, unsynced := false, copy := none}) rfl rfl
          (by simp) (by simp [owesReady]) (by simp) h hr
      · next hsy =>
        cases h
        refine served_silent hb fun _ => .inl ?_
        cases m with
        | sync => exact absurd rfl hsy
        | _ => first | rfl | exact hu
      · cases h
    · rw [if_neg hs] at h
      exact ready_served hb hk (by simpa using hs) h hr

end Serve

section Steps
variable {sql : Parser} {s : Session} {m : Frontend}

theorem countP_answer (sql : Parser) (s : ConnectionState) (m : Frontend) :
    (handleQueryMessage sql s m).2.toList.countP Awaited.isReady = if owesReady m then 1 else 0 := by
  cases m with
  | query body =>
    obtain ⟨changes,controls,h⟩ := handleQuery_ready sql s body
    simp only [handleQueryMessage,h]
    rfl
  | _ => rfl

def forwarded (sql : Parser) (s : Session) (m : Frontend) : Session :=
  {s with gateway := forwardOne sql s.gateway m, inbox := s.inbox++[m]}

theorem openAfter_append (u : Bool) (l₁ l₂ : List Frontend) :
    openAfter u (l₁++l₂) = openAfter (openAfter u l₁) l₂ := foldl_append ..

/-- Forwarding a message opens or closes the pipeline on both sides. -/
theorem opened_forward {p : Prop} (h : openAfter s.backend.unsynced s.inbox → s.gateway.extendedUnsynced ∨ p)
    (ho : openAfter s.backend.unsynced (s.inbox++[m])) :
    (accountForwardedMessage none m).getD s.gateway.extendedUnsynced ∨ p := by
  rw [openAfter_append] at ho
  change (accountForwardedMessage none m).getD (openAfter s.backend.unsynced s.inbox) = true at ho
  cases ha : accountForwardedMessage none m with
  | none =>
    rw [ha] at ho
    exact h ho
  | some v =>
    rw [ha] at ho
    exact .inl ho

theorem inv_forward (h : Inv s) (hw : s.gateway.queriesProcessed = 0 → owesReady m = false) :
    Inv (forwarded sql s m) := by
  have hm := handleQueryMessage_marks sql s.gateway m
  have hgw : (forwarded sql s m).gateway = (handleQueryMessage sql s.gateway m).1.requeue
      (s.gateway.awaiting++(handleQueryMessage sql s.gateway m).2.toList)
      ((accountForwardedMessage none m).getD s.gateway.extendedUnsynced) := forwardOne_eq ..
  rcases hm with hk | hma
  · rw [hk] at hgw
    rcases h with h | h
    · exact .inl (by rw [hgw]; exact h)
    have hr : awaitedReady (forwarded sql s m) = awaitedReady s+if owesReady m then 1 else 0 := by
      rw [awaitedReady,hgw]
      change List.countP _ (_++_) = _
      rw [countP_append,countP_answer]
      rfl
    have how : (s.inbox++[m]).countP owesReady =
        s.inbox.countP owesReady+if owesReady m then 1 else 0 := by
      rw [countP_append,countP_singleton]
    refine .inr ⟨h.coherent,fun hq => ?_,fun hq => ?_⟩
    · rw [hgw] at hq
      obtain ⟨hf,htx⟩ := h.fresh hq
      have hno := hw hq
      refine ⟨?_,by rw [hgw]; exact htx⟩
      exact {hf with
        quiet := by
          change (s.inbox++[m]).countP owesReady = 0
          rw [how,hf.quiet,hno]
          rfl
        unowed := by
          rw [hr,hf.unowed,hno]
          rfl
        opened := fun ho => by
          rw [hgw]
          have hop := opened_forward (p := False) (fun ho => .inl (hf.opened ho)) ho
          rw [or_false] at hop
          exact hop}
    · rw [hgw] at hq
      have hb := h.busy hq
      have howe : owed (forwarded sql s m) = owed s+if owesReady m then 1 else 0 := by
        rw [owed,owed]
        change _+(s.inbox++[m]).countP owesReady+_ = _
        rw [how]
        change s.outbox.countP isReadyForQuery+_+owedByCopy s.backend = _
        omega
      exact {
        started := hb.started
        counted := by
          rw [howe,hr]
          exact Nat.add_le_add_right hb.counted _
        opened := fun ho => by
          rw [howe,hr,hgw]
          have hop := opened_forward hb.opened ho
          exact hop.imp_right fun hlt => Nat.add_lt_add_right hlt _
        status := by
          rw [hgw]
          exact hb.status}
  · left
    rw [hgw,hma]
    rfl

def observed (s : Session) (m : Backend) (rest : List Backend) : Session :=
  {s with gateway := observeOne s.gateway m, outbox := rest}

variable {rest : List Backend} {inbox : List Frontend}

theorem core_observe {m : Backend} {g : ConnectionState} (h : Core s) (ho : s.outbox = m::rest)
    (hm : isReadyForQuery m = false) (hq : g.queriesProcessed = s.gateway.queriesProcessed)
    (htx : g.txStatus = s.gateway.txStatus) (he : g.extendedUnsynced = s.gateway.extendedUnsynced)
    (haw : g.awaiting.countP Awaited.isReady = s.gateway.awaiting.countP Awaited.isReady) :
    Core {s with gateway := g, outbox := rest} := by
  have hc : rest.countP isReadyForQuery = s.outbox.countP isReadyForQuery := by
    rw [ho,countP_cons_of_neg (by simp [hm])]
  have hs : ∀ status, statusAfter status rest = statusAfter status s.outbox := by
    intro status
    rw [ho]
    cases m with
    | readyForQuery _ => cases hm
    | _ => rfl
  refine ⟨h.coherent,fun hz => ?_,fun hz => ?_⟩
  · obtain ⟨hf,hi⟩ := h.fresh (hq ▸ hz)
    refine ⟨?_,htx.trans hi⟩
    exact {hf with
      readies := hc.trans hf.readies
      idle := (hs _).trans hf.idle
      unowed := haw.trans hf.unowed
      opened := fun ho => he.trans (hf.opened ho)}
  · have hb := h.busy (hq ▸ hz)
    have how : owed {s with gateway := g, outbox := rest} = owed s := by
      rw [owed,owed,← hc]
    have hr : awaitedReady {s with gateway := g, outbox := rest} = awaitedReady s := haw
    exact {
      started := hb.started
      counted := by
        rw [how,hr]
        exact hb.counted
      opened := by
        rw [how,hr,he]
        exact hb.opened
      status := by
        rw [htx,hs]
        exact hb.status}

theorem core_observe_ready {status : TransactionStatus} {g : ConnectionState} (h : Core s)
    (ho : s.outbox = .readyForQuery status::rest) (hq : 0 < g.queriesProcessed)
    (htx : g.txStatus = status) (he : g.extendedUnsynced = s.gateway.extendedUnsynced)
    (haw : g.awaiting = s.gateway.awaiting.tail) (hh : s.gateway.awaiting.head?.all Awaited.isReady)
    : Core {s with gateway := g, outbox := rest} := by
  have hc : s.outbox.countP isReadyForQuery = rest.countP isReadyForQuery+1 := by
    rw [ho,countP_cons_of_pos rfl]
  refine ⟨h.coherent,fun hz => absurd hz hq.ne',fun _ => ?_⟩
  rcases Nat.eq_zero_or_pos s.gateway.queriesProcessed with hz | hp
  · obtain ⟨hf,_⟩ := h.fresh hz
    have hr := hf.readies
    rw [hc] at hr
    have hst : s.backend.started := by
      by_contra hno
      simp [hno] at hr
    have hre : rest.countP isReadyForQuery = 0 := by
      rw [if_pos hst] at hr
      omega
    have hid : status = .idle := by
      have hi := hf.idle
      rw [ho] at hi
      exact (statusAfter_of_countP hre status).symm.trans hi
    exact {
      started := hst
      counted := by
        have hze : owed {s with gateway := g, outbox := rest} = 0 := by
          rw [owed,hre,hf.quiet,hf.copy]
        rw [hze]
        exact Nat.zero_le _
      opened := fun hop => .inl (he.trans (hf.opened hop))
      status := by
        rw [htx,statusAfter_of_countP hre,hid]
        exact hf.tx.imp_right .inl}
  · have hb := h.busy hp
    have how : owed s = owed {s with gateway := g, outbox := rest}+1 := by
      rw [owed,owed,hc]
      dsimp only
      omega
    have hrd : awaitedReady s = awaitedReady {s with gateway := g, outbox := rest}+1 := by
      have hle := hb.counted
      rw [how,awaitedReady] at hle
      rw [awaitedReady,awaitedReady,haw]
      cases hl : s.gateway.awaiting with
      | nil => simp [hl] at hle
      | cons a aw =>
        rw [hl] at hh
        exact countP_cons_of_pos hh
    exact {
      started := hb.started
      counted := by
        have hle := hb.counted
        omega
      opened := fun hop => by
        rw [he]
        refine (hb.opened hop).imp_right fun hlt => ?_
        omega
      status := by
        have hs := hb.status
        rw [ho] at hs
        rw [htx]
        exact hs}

theorem inv_observe {m : Backend} (h : Inv s) (ho : s.outbox = m::rest) :
    Inv (observed s m rest) := by
  have heq := observeOne_eq s.gateway m
  rw [observed,heq]
  have hac : ∀ a, (∀ status, a ≠ .ready status) → isReadyForQuery m = false →
      Inv {s with gateway := acknowledge s.gateway a, outbox := rest} := by
    intro a ha hm
    have hs := acknowledge_settles s.gateway a
    rcases h with h | h
    · exact .inl (hs.notMigratable h)
    · rcases acknowledge_countP s.gateway a ha with hma | hc
      · exact .inl hma
      · exact .inr (core_observe h ho hm hs.queriesProcessed hs.txStatus hs.extendedUnsynced hc)
  have hk : ∀ mode, isReadyForQuery m = false →
      Inv {s with gateway := {s.gateway with proxyMode := mode}, outbox := rest} := by
    intro mode hm
    exact h.imp id fun h => core_observe h ho hm rfl rfl rfl rfl
  cases m with
  | readyForQuery status =>
    have hs := acknowledge_settles s.gateway (.ready status)
    rcases h with h | h
    · exact .inl (hs.notMigratable h)
    · rcases acknowledge_ready_awaiting s.gateway status with hma | ⟨haw,hh⟩
      · exact .inl hma
      · exact .inr (core_observe_ready h ho (Nat.succ_pos _) rfl hs.extendedUnsynced haw hh)
  | parseComplete => exact hac .parseComplete (by simp) rfl
  | closeComplete => exact hac .closeComplete (by simp) rfl
  | errorResponse => exact hac .error (by simp) rfl
  | copyInResponse | copyOutResponse | copyBothResponse => exact hk .copyStreaming rfl
  | other => exact hk s.gateway.proxyMode rfl

theorem inv_say {m : Backend} (h : Inv s) (hm : isReadyForQuery m = false)
    (hc : inbox.countP owesReady = s.inbox.countP owesReady)
    (hop : ∀ u, openAfter u inbox = openAfter u s.inbox) (alive : Bool) :
    Inv {s with
      inbox := inbox, backend := {s.backend with alive := alive}, outbox := s.outbox++[m]} := by
  have hon : [m].countP isReadyForQuery = 0 := by simp [hm]
  have hou : (s.outbox++[m]).countP isReadyForQuery = s.outbox.countP isReadyForQuery := by
    rw [countP_append,hon]
    rfl
  have hs : ∀ status, statusAfter status (s.outbox++[m]) = statusAfter status s.outbox := by
    intro status
    rw [statusAfter_append,statusAfter_of_countP hon]
  refine h.imp id fun h => ⟨⟨h.coherent.skipping,h.coherent.copying,h.coherent.awake⟩,fun hz => ?_,
    fun hz => ?_⟩
  · obtain ⟨hf,hi⟩ := h.fresh hz
    refine ⟨?_,hi⟩
    exact {hf with
      quiet := hc.trans hf.quiet
      readies := hou.trans hf.readies
      idle := (hs _).trans hf.idle
      opened := fun ho => hf.opened ((hop _).symm.trans ho)}
  · have hb := h.busy hz
    have how : owed {s with
        inbox := inbox
        backend := {s.backend with alive := alive}
        outbox := s.outbox++[m]} = owed s := by
      rw [owed,owed,hou,hc]
      rfl
    exact {
      started := hb.started
      counted := how.trans_le hb.counted
      opened := fun ho => by
        rw [how]
        exact hb.opened ((hop _).symm.trans ho)
      status := by
        rw [hs]
        exact hb.status}

theorem drop_passwords {n : ℕ} (h : (l.take n).all (· = .password)) :
    (l.drop n).countP owesReady = l.countP owesReady ∧
      ∀ u, openAfter u (l.drop n) = openAfter u l := by
  induction n generalizing l with
  | zero => exact ⟨rfl,fun _ => rfl⟩
  | succ n ih =>
    cases l with
    | nil => exact ⟨rfl,fun _ => rfl⟩
    | cons m l =>
      rw [take_succ_cons,all_cons,Bool.and_eq_true,decide_eq_true_eq] at h
      obtain ⟨rfl,hl⟩ := h
      exact ih hl

theorem inv_start (h : Inv s) (hs : s.backend.started = false) :
    Inv {s with
      backend := {s.backend with started := true}, outbox := s.outbox++[.readyForQuery .idle]} := by
  refine h.imp id fun h => ⟨⟨h.coherent.skipping,h.coherent.copying,h.coherent.awake⟩,fun hz => ?_,
    fun hz => ?_⟩
  · obtain ⟨hf,hi⟩ := h.fresh hz
    refine ⟨?_,hi⟩
    exact {hf with
      readies := by
        have hr := hf.readies
        rw [hs] at hr
        rw [countP_append,hr]
        rfl
      idle := by
        rw [statusAfter_append]
        rfl}
  · have hb := (h.busy hz).started
    rw [hs] at hb
    cases hb

theorem inv_serve {b : Server} {answer : List Backend} (h : Inv s) (hi : s.inbox = m::inbox)
    {r : Reply} (hr : s.backend.serve m r = some (b,answer)) :
    Inv {s with inbox := inbox, backend := b, outbox := s.outbox++answer} := by
  refine h.imp id fun h => ?_
  obtain ⟨hsta,hv⟩ := serve_served h.coherent hr
  have hin : s.inbox.countP owesReady = inbox.countP owesReady+if owesReady m then 1 else 0 := by
    rw [hi,countP_cons]
  have hop : openAfter s.backend.unsynced s.inbox =
      openAfter ((accountForwardedMessage none m).getD s.backend.unsynced) inbox := by
    rw [hi]
    rfl
  have hc := hv.counted
  refine ⟨hv.coherent,fun hz => ?_,fun hz => ?_⟩
  · obtain ⟨hf,hid⟩ := h.fresh hz
    have hq := hf.quiet
    have hco := hf.copy
    -- nothing owed before, so nothing is answered with a ReadyForQuery
    have hze : answer.countP isReadyForQuery+owedByCopy b = 0 := by omega
    have ha : answer.countP isReadyForQuery = 0 := by omega
    have hb : owedByCopy b = 0 := by omega
    refine ⟨?_,hid⟩
    exact {
      quiet := by
        dsimp only
        omega
      copy := hb
      readies := by
        rw [countP_append,ha,hf.readies,hv.started]
        rfl
      idle := by
        rw [statusAfter_append,statusAfter_of_countP ha]
        exact hf.idle
      unowed := hf.unowed
      opened := fun ho => by
        refine hf.opened ?_
        rw [hop]
        refine openAfter_mono (fun hu => (hv.opened hu).resolve_right ?_) inbox ho
        omega
      tx := by
        have hst := hv.status .idle (hf.tx.imp_right .inl)
        rw [statusAfter_of_countP ha] at hst
        refine hst.imp_right fun hu => hu.resolve_right ?_
        omega}
  · have hb := h.busy hz
    have hlt : answer.countP isReadyForQuery+owedByCopy b <
        (if owesReady m then 1 else 0)+owedByCopy s.backend →
        owed {s with inbox := inbox, backend := b, outbox := s.outbox++answer} < owed s := by
      intro hlt
      rw [owed,owed,hin,countP_append]
      dsimp only
      omega
    have hle : owed {s with inbox := inbox, backend := b, outbox := s.outbox++answer} ≤ owed s := by
      rw [owed,owed,hin,countP_append]
      dsimp only
      omega
    exact {
      started := hv.started.trans hsta
      counted := hle.trans hb.counted
      opened := fun ho => by
        by_cases hs : answer.countP isReadyForQuery+owedByCopy b <
            (if owesReady m then 1 else 0)+owedByCopy s.backend
        · exact .inr ((hlt hs).trans_le hb.counted)
        · have hbe : openAfter s.backend.unsynced s.inbox := by
            rw [hop]
            exact openAfter_mono (fun hu => (hv.opened hu).resolve_right hs) inbox ho
          exact (hb.opened hbe).imp_right fun h => hle.trans_lt h
      status := by
        rw [statusAfter_append]
        exact hv.status _ hb.status}

theorem inv_client (batch : List Frontend) (h : Inv s)
    (hw : s.gateway.queriesProcessed = 0 → ∀ m ∈ batch, owesReady m = false) :
    Inv {s with gateway := processClientData sql s.gateway batch, inbox := s.inbox++batch} := by
  rw [processClientData_eq_foldl]
  induction batch generalizing s with
  | nil =>
    rw [append_nil]
    exact h
  | cons m batch ih =>
    have ho : Inv (forwarded sql s m) := inv_forward h fun hz => hw hz m mem_cons_self
    have hr := ih ho fun hz m' hm' => hw ?_ m' (mem_cons_of_mem _ hm')
    · rwa [forwarded,append_assoc] at hr
    · have hq := forwardOne_queriesProcessed sql s.gateway m
      exact hq.symm.trans hz

theorem inv_deliver (n : ℕ) (h : Inv s) :
    Inv {s with
      gateway := processBackendData s.gateway (s.outbox.take n), outbox := s.outbox.drop n} := by
  rw [processBackendData_eq_foldl]
  induction n generalizing s with
  | zero => exact h
  | succ n ih =>
    cases ho : s.outbox with
    | nil =>
      rw [← ho]
      have heq : s.outbox.take (n+1) = [] ∧ s.outbox.drop (n+1) = s.outbox := by simp [ho]
      rw [heq.1,heq.2]
      exact h
    | cons m rest => exact ih (inv_observe h ho)

theorem inv_step {s' : Session} {e : Event} (h : Inv s) (hw : Waits s e)
    (hs : step sql s e = some s') : Inv s' := by
  cases e with
  | client batch =>
    cases hs
    exact inv_client batch h hw
  | authenticate read =>
    simp only [step,Option.ite_none_right_eq_some,Option.some.injEq] at hs
    obtain ⟨hc,rfl⟩ := hs
    obtain ⟨hco,ho⟩ := drop_passwords hc.2.2
    exact inv_say h rfl hco ho s.backend.alive
  | start =>
    simp only [step,Option.ite_none_right_eq_some,Option.some.injEq] at hs
    obtain ⟨hc,rfl⟩ := hs
    exact inv_start h (by simpa using hc.2)
  | serve reply =>
    rw [step] at hs
    cases hi : s.inbox with
    | nil =>
      rw [hi] at hs
      cases hs
    | cons m inbox =>
      rw [hi] at hs
      obtain ⟨⟨b,answer⟩,hr,rfl⟩ := Option.map_eq_some_iff.1 hs
      exact inv_serve h hi hr
  | fatal =>
    simp only [step,Option.ite_none_right_eq_some,Option.some.injEq] at hs
    obtain ⟨_,rfl⟩ := hs
    exact inv_say h rfl rfl (fun _ => rfl) false
  | deliver n =>
    cases hs
    exact inv_deliver n h

end Steps

theorem inv_init : Inv {} :=
  .inr ⟨⟨by simp,by simp,by simp⟩,
    fun _ => ⟨⟨rfl,rfl,rfl,rfl,rfl,id,.inl rfl⟩,rfl⟩,fun h => absurd h (Nat.lt_irrefl 0)⟩

/-- With no Sync among them, messages that leave no pipeline open contain no extended one. -/
theorem quiet_of_closed {u : Bool} (hq : l.countP owesReady = 0) (ho : ¬openAfter u l) :
    u = false ∧ ∀ m ∈ l, isRequest m = false := by
  induction l generalizing u with
  | nil => exact ⟨by simpa [openAfter] using ho,by simp⟩
  | cons m l ih =>
    rw [countP_cons] at hq
    have hm : owesReady m = false := by
      by_contra hne
      rw [if_pos (by simpa using hne)] at hq
      omega
    obtain ⟨hu,hl⟩ := ih (u := (accountForwardedMessage none m).getD u) (by omega) ho
    have hn : accountForwardedMessage none m = none := by
      cases m with
      | sync => cases hm
      | parse _ | bind | describe | execute | close _ => cases hu
      | _ => rfl
    rw [hn] at hu
    refine ⟨hu,fun m' hm' => ?_⟩
    rcases mem_cons.1 hm' with rfl | hm'
    · rw [isRequest,hm,hn]
      rfl
    · exact hl m' hm'

theorem answered_of_inv {s : Session} (h : Inv s) (hm : s.gateway.isMigratable) : Answered s := by
  simp only [ConnectionState.isMigratable,ConnectionState.responsePending,Bool.and_eq_true,
    decide_eq_true_eq,Bool.not_eq_true',Bool.or_eq_false_iff,decide_eq_false_iff_not,
    not_not] at hm
  obtain ⟨⟨⟨htx,_⟩,haw,he⟩,hma⟩ := hm
  rcases h with h | h
  · rw [hma] at h
    cases h
  have hr : awaitedReady s = 0 := by rw [awaitedReady,haw]; rfl
  -- in both phases nothing is owed and no pipeline is open
  have hp : s.inbox.countP owesReady = 0 ∧ owedByCopy s.backend = 0 ∧
      ¬openAfter s.backend.unsynced s.inbox ∧ (.idle = s.backend.tx ∨ s.backend.unsynced) := by
    rcases Nat.eq_zero_or_pos s.gateway.queriesProcessed with hz | hpo
    · obtain ⟨hf,_⟩ := h.fresh hz
      refine ⟨hf.quiet,hf.copy,fun ho => ?_,hf.tx⟩
      have hop := hf.opened ho
      rw [he] at hop
      cases hop
    · have hb := h.busy hpo
      have how : owed s = 0 := Nat.le_zero.1 (hr ▸ hb.counted)
      rw [owed] at how
      refine ⟨by omega,by omega,fun ho => ?_,?_⟩
      · rcases hb.opened ho with hop | hlt
        · rw [he] at hop
          cases hop
        · omega
      · have hs := hb.status
        rw [statusAfter_of_countP (by omega),htx] at hs
        refine hs.imp_right fun hu => hu.resolve_right ?_
        omega
  obtain ⟨hq,hc,hope,hi⟩ := hp
  obtain ⟨hu,hre⟩ := quiet_of_closed hq hope
  exact {
    read := hre
    skipping := by
      by_contra hsk
      have := h.coherent.skipping (by simpa using hsk)
      rw [hu] at this
      cases this
    copy := by
      cases hk : s.backend.copy with
      | none => rfl
      | some kind =>
        cases kind with
        | simple => simp [owedByCopy,hk] at hc
        | extended =>
          have := h.coherent.copying hk
          rw [hu] at this
          cases this
    unsynced := hu
    tx := by
      rw [hu] at hi
      exact (hi.resolve_right (by simp)).symm}

theorem migratable_answered (sql : Parser) (es : List Event) (s : Session)
    (hwaits : Guarded (step sql) Waits {} es) (hrun : run (step sql) {} es = some s)
    (hm : s.gateway.isMigratable) : Answered s :=
  answered_of_inv (run_invariant_guarded (fun _ _ _ h hw hs => inv_step h hw hs) inv_init hwaits
    hrun) hm

/-- A session that begins, runs an extended batch that fails, and copies in. -/
def conversation : List Event :=
  [.client [.password],.authenticate 1,.start,.deliver 2,
    .client [.parse [],.bind,.execute,.sync],.serve (.failed [] .failed),.serve .silent,
    .serve .silent,.serve (.ok [] .idle),.client [.query (ascii "COPY t FROM STDIN"++[0])],
    .deliver 2,.serve (.copyIn []),.deliver 1,.client [.copyData,.copyDone],.serve .silent,
    .serve (.ok [.other] .idle),.deliver 2]

theorem migratable_answered_conversation :
    (run (step rejecting) {} conversation).any fun s =>
      decide (s.gateway.queriesProcessed = 3 ∧ s.gateway.isMigratable ∧ Answered s) := by
  have hw : Guarded (step rejecting) Waits {} conversation := by decide +kernel
  have hr : (run (step rejecting) {} conversation).any fun s =>
      decide (s.gateway.queriesProcessed = 3 ∧ s.gateway.isMigratable) := by decide +kernel
  obtain ⟨s,hs,hm⟩ := (Option.any_eq_true _ _).1 hr
  obtain ⟨hq,hm⟩ := of_decide_eq_true hm
  have ha := migratable_answered rejecting conversation s hw hs hm
  rw [hs]
  exact decide_eq_true ⟨hq,hm,ha⟩

/-- A query pipelined behind the startup packet: the startup's ReadyForQuery settles it, and the
session is called migratable while the backend runs it. -/
theorem migratable_unanswered :
    ∃ s ∈ run (step rejecting) {}
      [.client [.query (ascii "INSERT INTO t VALUES (1)"++[0])],.start,.deliver 1],
      s.gateway.isMigratable ∧ ¬Answered s := by
  decide +kernel

end InFlight
end PgBattery
