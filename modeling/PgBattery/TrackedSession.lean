import PgBattery.HeldSession
import PgBattery.Settlement

/-! The record the gateway keeps of a session is what the backend holds, whenever the gateway would
replay that record on another backend. -/
namespace PgBattery
namespace TrackedSession
open Postcard Analysis Gateway PgBackend InFlight Lexical HeldSession Settlement TransitionSystem List

structure State where
  session : Session := {gateway := {queriesProcessed := 1}, backend := {started := true}}
  held : Held := {}
  /-- The query whose copy-in is under way. -/
  copying : Bytes := []

inductive Event
  | client (batch : List Frontend)
  | serve (reply : Reply) (held : Held)
  | fatal
  | deliver (n : ℕ)

def copyingAfter (copying : Bytes) (m : Frontend) (r : Reply) : Bytes :=
  match m, r with
  | .query body, .copyIn _ => body
  | _, _ => copying

def step (sql : Parser) (s : State) : Event → Option State
  | .client batch =>
    (InFlight.step sql s.session (.client batch)).map fun t => {s with session := t}
  | .serve reply held => match s.session.inbox with
    | [] => none
    | m::_ =>
      if affects sql s.session.backend s.copying m reply s.held held then
        (InFlight.step sql s.session (.serve reply)).map fun t =>
          {session := t, held := held, copying := copyingAfter s.copying m reply}
      else none
  | .fatal => (InFlight.step sql s.session .fatal).map fun t => {s with session := t}
  | .deliver n => (InFlight.step sql s.session (.deliver n)).map fun t => {s with session := t}

/-- The record the gateway would replay is what the backend session holds. -/
structure Same (g : ConnectionState) (h : Held) : Prop where
  prepared : ∀ name, g.prepared.lookup name = h.prepared.lookup name
  channels : g.channels = h.channels

instance (g : ConnectionState) (h : Held) : Decidable (Same g h) :=
  decidable_of_iff ((∀ name ∈ g.prepared.keys++h.prepared.keys,
      g.prepared.lookup name = h.prepared.lookup name) ∧ g.channels = h.channels) <| by
    refine ⟨fun ⟨hp,hc⟩ => ⟨fun name => ?_,hc⟩,fun hs => ⟨fun name _ => hs.prepared name,hs.channels⟩⟩
    by_cases hmem : name ∈ g.prepared.keys++h.prepared.keys
    · exact hp name hmem
    · rw [List.mem_append,not_or] at hmem
      rw [AList.lookup_eq_none.2 hmem.1,AList.lookup_eq_none.2 hmem.2]

def sent : Event → List Frontend
  | .client batch => batch
  | .serve .. | .fatal | .deliver _ => []

/-- A Parse or Close is read into the copy-in of a simple query. -/
def interrupts (s : State) : Event → Bool
  | .serve .. => s.session.backend.copy = some .simple && s.session.inbox.head?.any preparing
  | .client _ | .fatal | .deliver _ => false

def Plain (sql : Parser) (s : State) (e : Event) : Prop :=
  (∀ m ∈ sent e, plain sql m) ∧ interrupts s e = false

def awaitedFor (sql : Parser) : Frontend → Option Awaited
  | .parse msg => some (.parse ((parseStatementName msg).map fun name => (name,msg)))
  | m => (handleQueryMessage sql {} m).2

def answers (sql : Parser) (inbox : List Frontend) : List Awaited := inbox.filterMap (awaitedFor sql)

/-- What the backend has still to answer: a query in its copy-in, and what it has not read. -/
def pending (s : State) : List Frontend :=
  if s.session.backend.copy = some .simple then .query s.copying::s.session.inbox
  else s.session.inbox

def skips (b : Server) : Bool := b.copy = none && b.skipping

structure Agrees (t : Tracked) (h : Held) : Prop where
  prepared : ∀ name, t.prepared.lookup name = h.prepared.lookup name
  channels : t.channels = h.channels
  settled : h.unsettled = false

/-- What is awaited is what is owed. A backend that skips owes nothing up to its Sync, though the
gateway may still await what it forwarded after it had seen the error. -/
def Expects (sql : Parser) (s : State) (aw : List Awaited) : Prop :=
  if skips s.session.backend then
    aw.dropWhile (!·.isReady) = (answers sql s.session.inbox).dropWhile (!·.isReady)
  else aw = answers sql (pending s)

/-- More is awaited than is owed, so that something is always awaited. -/
def Surplus (s : State) (aw : List Awaited) : Prop :=
  s.session.inbox.countP owesReady+owedByCopy s.session.backend < aw.countP Awaited.isReady

/-- What comes of the record once everything sent has been processed. -/
def Fits (sql : Parser) (s : State) : Except Fate Tracked → Prop
  | .error .marked => True
  | .error .lost => False
  | .ok t => Surplus s t.awaiting ∨
    (Agrees t s.held ∧ (s.session.backend.alive → Expects sql s t.awaiting))

variable {aw : List Awaited} {complete : List Backend}

theorem expects_skips {sql : Parser} {s : State} (h : skips s.session.backend) : Expects sql s aw ↔
      aw.dropWhile (!·.isReady) = (answers sql s.session.inbox).dropWhile (!·.isReady) := by
  rw [Expects,if_pos h]

structure Inv (sql : Parser) (s : State) : Prop where
  coherent : Server.Coherent s.session.backend
  plain : ∀ m ∈ pending s, plain sql m
  clean : s.session.backend.alive → skips s.session.backend = false →
    dangling false s.session.outbox = false
  fits : s.session.gateway.notMigratable ∨
    Fits sql s (settleAll (track s.session.gateway) s.session.outbox)

section Forward
variable {sql : Parser} {s : State} {m : Frontend}

theorem handleQuery_snd (sql : Parser) (s s' : ConnectionState) (body : Bytes) :
    (handleQuery sql s body).2 = (handleQuery sql s' body).2 := by
  simp only [handleQuery]
  split_ifs <;> simp [applySessionChanges_snd]

theorem handleQueryMessage_snd (sql : Parser) (g : ConnectionState) (m : Frontend)
    (h : (handleQueryMessage sql g m).1.notMigratable = false) :
    (handleQueryMessage sql g m).2 = awaitedFor sql m := by
  cases m with
  | query body => exact congrArg some (handleQuery_snd sql g {} body)
  | parse msg =>
    simp only [handleQueryMessage] at h ⊢
    simp only [captureParseForReplay,h,awaitedFor]
    cases parseStatementName msg <;> rfl
  | _ => rfl

theorem countP_awaitedFor (sql : Parser) (m : Frontend) :
    (awaitedFor sql m).toList.countP Awaited.isReady = if owesReady m then 1 else 0 := by
  cases m with
  | parse msg => rfl
  | _ => exact countP_answer sql {} _

theorem answers_cons (sql : Parser) (m : Frontend) (l : List Frontend) :
    answers sql (m::l) = (awaitedFor sql m).toList++answers sql l := by
  cases h : awaitedFor sql m <;> simp [answers,h]

theorem answers_append (sql : Parser) (l : List Frontend) (m : Frontend) :
    answers sql (l++[m]) = answers sql l++(awaitedFor sql m).toList := by
  cases h : awaitedFor sql m <;> simp [answers,h]

theorem countP_answers (sql : Parser) (l : List Frontend) :
    (answers sql l).countP Awaited.isReady = l.countP owesReady := by
  induction l with
  | nil => rfl
  | cons m l ih => rw [answers_cons,countP_append,countP_awaitedFor,ih,countP_cons,Nat.add_comm]

theorem track_forwardOne (sql : Parser) (g : ConnectionState) (m : Frontend) (h : g.notMigratable = false) :
    (forwardOne sql g m).notMigratable ∨
      track (forwardOne sql g m) = (track g).push (awaitedFor sql m) := by
  rw [forwardOne_eq]
  rcases handleQueryMessage_marks sql g m with hk | hm
  · rw [hk,handleQueryMessage_snd sql g m (by rw [hk]; exact h)]
    exact .inr rfl
  · rw [hm]
    exact .inl rfl

theorem forwardOne_notMigratable (g : ConnectionState) (h : g.notMigratable) :
    (forwardOne sql g m).notMigratable := by
  rw [forwardOne_eq]
  rcases handleQueryMessage_marks sql g m with hk | hm
  · rwa [hk]
  · rw [hm]
    rfl

theorem observeOne_notMigratable (g : ConnectionState) (m : Backend) (h : g.notMigratable) :
    (observeOne g m).notMigratable := by
  rw [observeOne_eq]
  cases m <;> first | exact (acknowledge_settles g _).notMigratable h | exact h

theorem pending_append (s : State) (g : ConnectionState) (m : Frontend) :
    pending {s with session := {s.session with gateway := g, inbox := s.session.inbox++[m]}} =
      pending s++[m] := by
  rw [pending,pending]
  split_ifs <;> rfl

theorem expects_push {g : ConnectionState} (h : Expects sql s aw) :
    Expects sql {s with session := {s.session with gateway := g, inbox := s.session.inbox++[m]}}
      (aw++(awaitedFor sql m).toList) := by
  rw [Expects] at h ⊢
  split_ifs at h ⊢ with hs
  · rw [answers_append,dropWhile_push,dropWhile_push,h]
  · rw [pending_append,answers_append,h]

theorem expects_dropped {g : ConnectionState} (h : Expects sql s aw) (hs : skips s.session.backend)
    (hn : aw = []) (ha : (awaitedFor sql m).all (!·.isReady)) :
    Expects sql {s with session := {s.session with gateway := g, inbox := s.session.inbox++[m]}}
      aw := by
  subst hn
  rw [Expects,if_pos hs,dropWhile_nil] at h ⊢
  rw [answers_append,dropWhile_push,if_pos h.symm]
  cases hm : awaitedFor sql m <;> simp_all

theorem inv_forwarded (h : Inv sql s) (hpl : plain sql m) :
    Inv sql {s with session := forwarded sql s.session m} := by
  refine ⟨h.coherent,?_,h.clean,?_⟩
  · rw [forwarded,pending_append]
    exact forall_mem_append.2 ⟨h.plain,by simpa using hpl⟩
  cases hm : s.session.gateway.notMigratable with
  | true => exact .inl (forwardOne_notMigratable _ hm)
  | false =>
    have hf := h.fits.resolve_left (by simp [hm])
    refine (track_forwardOne sql _ m hm).imp_right fun ht => ?_
    dsimp only [forwarded]
    rw [ht]
    cases hs : settleAll (track s.session.gateway) s.session.outbox with
    | error fate =>
      cases fate with
      | marked =>
        rw [settleAll_push_marked _ hs]
        trivial
      | lost => simp [hs,Fits] at hf
    | ok t =>
      rw [hs] at hf
      rcases settleAll_push (awaitedFor sql m) hs with hp | hp | ⟨hn,hr,hd,hp⟩ <;> rw [hp]
      · refine hf.imp (fun hsu => ?_) fun hb =>
          ⟨⟨hb.1.prepared,hb.1.channels,hb.1.settled⟩,fun hal => expects_push (hb.2 hal)⟩
        simp only [Surplus,Tracked.push,countP_append,countP_singleton,countP_awaitedFor] at hsu ⊢
        omega
      · trivial
      · refine hf.imp (fun hsu => ?_) fun hb => ⟨hb.1,fun hal => ?_⟩
        · simp [Surplus,hn] at hsu
        · refine expects_dropped (hb.2 hal) ?_ hn hr
          by_contra hsk
          simp [h.clean hal (by simpa using hsk)] at hd

end Forward

section Deliver
variable {sql : Parser} {s : State}

theorem inv_observed {m : Backend} {rest : List Backend} (h : Inv sql s)
    (ho : s.session.outbox = m::rest) :
    Inv sql {s with session := observed s.session m rest} := by
  refine ⟨h.coherent,h.plain,fun hal hsk => ?_,?_⟩
  · have hc := h.clean hal hsk
    rw [ho] at hc
    by_contra hd
    have hb : dangling false (m::rest) := dangling_mono (by simp) rest (eq_true_of_ne_false hd)
    simp [hc] at hb
  cases hm : s.session.gateway.notMigratable with
  | true => exact .inl (observeOne_notMigratable _ m hm)
  | false =>
    have hf := h.fits.resolve_left (by simp [hm])
    rw [ho,settleAll_cons] at hf
    have hon := observeOne_settle s.session.gateway m
    cases hs : settle (track s.session.gateway) m with
    | error fate =>
      rw [hs] at hf hon
      cases fate with
      | marked => exact .inl hon
      | lost => exact absurd hf id
    | ok t =>
      rw [hs] at hf hon
      right
      dsimp only [observed]
      rwa [hon.1]

theorem settle_error (t : Tracked) : settle t .errorResponse = .error .marked ∨
    settle t .errorResponse = .ok {t with awaiting := t.awaiting.dropWhile (!·.isReady)} := by
  simp only [settle]
  split
  · split_ifs <;> simp_all
  · exact .inr rfl

theorem inv_fatal (h : Inv sql s) :
    Inv sql {s with session := {s.session with
      backend := {s.session.backend with alive := false}
      outbox := s.session.outbox++[.errorResponse]}} := by
  refine ⟨⟨h.coherent.skipping,h.coherent.copying,h.coherent.awake⟩,h.plain,by simp,
    h.fits.imp id fun hf => ?_⟩
  dsimp only
  rw [settleAll_append]
  cases hs : settleAll (track s.session.gateway) s.session.outbox with
  | error fate =>
    rw [hs] at hf
    cases fate <;> exact hf
  | ok t =>
    rw [hs] at hf
    change Fits sql _ (settleAll t [.errorResponse])
    rw [settleAll_cons]
    rcases settle_error t with he | he <;> rw [he]
    · trivial
    · refine hf.imp (fun hsu => ?_) fun hb =>
        ⟨⟨hb.1.prepared,hb.1.channels,hb.1.settled⟩,by simp⟩
      rwa [Surplus,countP_dropWhile_isReady]

end Deliver

section Effects
variable {sql : Parser} {t : Tracked} {h h' : Held} {nodes : List Node}

theorem agrees_awaiting (ha : Agrees t h) (aw : List Awaited) : Agrees {t with awaiting := aw} h :=
  ⟨ha.prepared,ha.channels,ha.settled⟩

theorem agrees_insert (ha : Agrees t h) (name bytes : Bytes) :
    Agrees {t with prepared := t.prepared.insert name bytes}
      {h with prepared := h.prepared.insert name bytes} where
  prepared other := by
    by_cases heq : other = name
    · subst heq
      rw [AList.lookup_insert,AList.lookup_insert]
    · rw [AList.lookup_insert_ne heq,AList.lookup_insert_ne heq]
      exact ha.prepared other
  channels := ha.channels
  settled := ha.settled

theorem agrees_erase (ha : Agrees t h) (name : Bytes) :
    Agrees {t with prepared := t.prepared.erase name}
      {h with prepared := h.prepared.erase name} where
  prepared other := by
    by_cases heq : other = name
    · subst heq
      rw [AList.lookup_erase,AList.lookup_erase]
    · rw [AList.lookup_erase_ne heq,AList.lookup_erase_ne heq]
      exact ha.prepared other
  channels := ha.channels
  settled := ha.settled

theorem agrees_kept (ha : Agrees t h) (hk : kept h h') : Agrees t h' := by
  simp only [kept,ha.settled,Bool.false_or,Bool.and_eq_true,decide_eq_true_eq,
    Bool.not_eq_true'] at hk
  obtain ⟨hp,hc,hu⟩ := hk
  exact ⟨fun name => hp ▸ ha.prepared name,ha.channels.trans hc.symm,hu⟩

theorem agrees_execute (ha : Agrees t h) (node : Node) :
    Agrees ((changeOf node).toList.foldl Tracked.commit t) (h.execute node) := by
  cases node with
  | listenStmt name => exact ⟨ha.prepared,congrArg (insert name) ha.channels,ha.settled⟩
  | unlistenStmt name =>
    simp only [changeOf,Held.execute]
    split_ifs
    · exact ⟨ha.prepared,rfl,ha.settled⟩
    · exact ⟨ha.prepared,congrArg (Finset.erase · name) ha.channels,ha.settled⟩
  | deallocateStmt isall name =>
    cases isall with
    | true => exact ⟨fun _ => rfl,ha.channels,ha.settled⟩
    | false => exact agrees_erase ha name
  | discardStmt all =>
    cases all with
    | true => exact ⟨fun _ => rfl,rfl,ha.settled⟩
    | false => exact ha
  | _ => exact ha

theorem agrees_foldl (ha : Agrees t h) (nodes : List Node) :
    Agrees ((nodes.filterMap changeOf).foldl Tracked.commit t) (nodes.foldl Held.execute h) := by
  induction nodes generalizing t h with
  | nil => exact ha
  | cons node nodes ih =>
    have ho := ih (agrees_execute ha node)
    cases hc : changeOf node <;> simpa [hc] using ho

theorem neutral {node : Node} (hc : changeOf node = none) (h : Held) :
    h.execute node = h ∧ movesChannels node = false := by
  cases node with
  | listenStmt name | unlistenStmt name | deallocateStmt isall name => cases hc
  | discardStmt all => cases all <;> simp_all [changeOf,Held.execute,movesChannels]
  | _ => exact ⟨rfl,rfl⟩

theorem foldl_neutral (hn : ∀ node ∈ nodes, changeOf node = none) (h : Held) :
    nodes.foldl Held.execute h = h := by
  induction nodes <;> simp_all [neutral]

theorem kept_of_ran {r : Reply} (hn : nodes.filterMap changeOf = []) (hr : ran nodes r h h') :
    kept h h' := by
  rw [filterMap_eq_nil_iff] at hn
  have hm : nodes.any movesChannels = false := any_eq_false.2 fun node hno => by
    simp [(neutral (hn node hno) h).2]
  rw [ran] at hr
  split_ifs at hr with hc
  · simp only [foldl_neutral hn,decide_eq_true_eq] at hr
    simp_all [kept]
  · rw [hm,Bool.or_false,Bool.and_eq_true] at hr
    obtain ⟨n,_,hp⟩ := any_eq_true.1 hr.1
    rw [foldl_neutral fun node hno => hn node (mem_of_mem_take hno)] at hp
    simpa [kept,hr.2] using hp

/-- The changes of a query that is owed a ReadyForQuery, and what its end makes of the session. -/
structure Owed (sql : Parser) (body : Bytes) (changes : List ReplayChange) (controls : Bool) : Prop where
  none : changes = [] → ∀ r h h', ended sql body r h h' → kept h h'
  some : changes ≠ [] → controls = false → ∀ reply h h' t, Agrees t h →
    ended sql body (.ok reply .idle) h h' → Agrees (changes.foldl Tracked.commit t) h'

theorem owed_query (hs : Faithful sql) {body : Bytes} (hp : plain sql (.query body)) :
    ∃ changes controls, awaitedFor sql (.query body) = Option.some (.ready changes controls) ∧
      Owed sql body changes controls := by
  cases hq : queryNodes sql body with
  | none =>
    obtain ⟨changes,controls,hr⟩ := handleQuery_ready sql {} body
    refine ⟨changes,controls,congrArg Option.some hr,?_,?_⟩
    · intro _ r h h' he
      cases r <;> simp_all [ended]
    · simp [ended,hq]
  | some nodes =>
    obtain ⟨controls,hr,hco⟩ := handleQuery_plain hs hp hq {}
    refine ⟨_,controls,congrArg Option.some hr,?_,?_⟩
    · intro hn r h h' he
      exact kept_of_ran hn (by simpa [ended,hq] using he)
    · intro hne hc reply h h' t ha he
      have hno : nodes.contains .transactionStmt = false := (hco hne).symm.trans hc
      have hcm : (commits nodes (.ok reply .idle) && !h.unsettled) := by
        rw [commits,hno,ha.settled]
        rfl
      simp only [ended,hq,ran,if_pos hcm,decide_eq_true_eq] at he
      exact he ▸ agrees_foldl ha nodes

end Effects

section Answers
variable {t : Tracked} {c b' : Server} {r : Reply} {answer body : List Backend}

theorem settle_inert {m : Backend} (h : inert m) (t : Tracked) : settle t m = .ok t := by
  cases m <;> first | rfl | cases h

theorem settleAll_inert (h : body.all inert) (t : Tracked) (l : List Backend) :
    settleAll t (body++l) = settleAll t l := by
  induction body with
  | nil => rfl
  | cons m body ih =>
    rw [all_cons,Bool.and_eq_true] at h
    rw [cons_append,settleAll_cons,settle_inert h.1]
    exact ih h.2

theorem dangling_inert (h : body.all inert) (d : Bool) (l : List Backend) :
    dangling d (body++l) = dangling d l := by
  induction body with
  | nil => rfl
  | cons m body ih =>
    rw [all_cons,Bool.and_eq_true] at h
    cases m with
    | copyOutResponse | other => exact ih h.2
    | _ => cases h.1

theorem dangling_answerReady (h : c.answerReady r = some (b',answer)) (hr : r.body.all inert)
    (d : Bool) : dangling d answer = false := by
  cases r <;> cases h <;> exact dangling_inert hr d _

theorem settleAll_singleton (t : Tracked) (m : Backend) : settleAll t [m] = settle t m := by
  rw [settleAll_cons]
  cases settle t m <;> rfl

theorem settle_answerReady {changes : List ReplayChange} {controls : Bool} {rest : List Awaited}
    (h : c.answerReady r = some (b',answer)) (hr : r.body.all inert)
    (haw : t.awaiting.dropWhile (!·.isReady) = .ready changes controls::rest) :
    settleAll t answer = .error .marked ∨
      (changes = [] ∧ settleAll t answer = .ok {t with awaiting := rest}) ∨
      (changes ≠ [] ∧ controls = false ∧ (∃ body, r = .ok body .idle) ∧
        settleAll t answer = .ok (changes.foldl Tracked.commit {t with awaiting := rest})) := by
  cases r with
  | silent | copyIn body => cases h
  | ok body status =>
    cases h
    have hb : body.all inert := hr
    rw [settleAll_inert hb,settleAll_singleton]
    match hl : t.awaiting with
    | [] => simp [hl] at haw
    | .parse _::_ | .close _::_ => exact .inl (by simp [settle,hl])
    | .ready changes' controls'::rest' =>
      rw [hl] at haw
      obtain ⟨⟨⟩,rfl⟩ := List.cons.inj haw
      simp only [settle,hl]
      by_cases hc : changes = []
      · exact .inr (.inl ⟨hc,if_pos hc⟩)
      · rw [if_neg hc]
        split_ifs with hi
        · exact .inr (.inr ⟨hc,by simpa using hi.2,⟨body,by rw [hi.1]⟩,rfl⟩)
        · exact .inl rfl
  | failed body status =>
    cases h
    have hb : body.all inert := hr
    rw [settleAll_inert hb,settleAll_cons]
    by_cases hc : changes = []
    · have he : settle t .errorResponse = .ok {t with awaiting := .ready changes controls::rest} := by
        simp only [settle,haw,if_pos hc]
      refine .inr (.inl ⟨hc,?_⟩)
      rw [he]
      change settleAll _ [.readyForQuery status] = _
      simp only [settleAll_singleton,settle,if_pos hc]
    · have he : settle t .errorResponse = .error .marked := by simp only [settle,haw,if_neg hc]
      exact .inl (by rw [he]; rfl)

theorem settle_answerExtended (h : c.answerExtended complete r = some (b',answer))
    (hr : r.body.all inert) :
    (∃ body status, r = .ok body status ∧ b' = {c with unsynced := true, tx := status} ∧
      (∀ t, settleAll t answer = settleAll t complete) ∧
        ∀ d, dangling d answer = dangling d complete) ∨
    (∃ body status, r = .failed body status ∧
      b' = {c with unsynced := true, skipping := true, tx := status} ∧
      ∀ t : Tracked, settleAll t answer = .error .marked ∨
        settleAll t answer = .ok {t with awaiting := t.awaiting.dropWhile (!·.isReady)}) := by
  cases r with
  | silent | copyIn body => cases h
  | ok body status =>
    cases h
    exact .inl ⟨body,status,rfl,rfl,fun t => settleAll_inert hr t _,fun d => dangling_inert hr d _⟩
  | failed body status =>
    cases h
    have hb : body.all inert := hr
    refine .inr ⟨body,status,rfl,rfl,fun t => ?_⟩
    rw [settleAll_inert hb,settleAll_singleton]
    exact settle_error t

end Answers

def next (s : State) (inbox : List Frontend) (b : Server) (answer : List Backend) (h : Held)
    (copying : Bytes) : State where
  session := {s.session with inbox := inbox, backend := b, outbox := s.session.outbox++answer}
  held := h
  copying := copying

/-- What an answer must do: copy in only what was forwarded, leave no error open, and keep the record
in step. -/
structure Follows (sql : Parser) (s s' : State) (answer : List Backend) : Prop where
  copying : s'.session.backend.copy = some .simple → .query s'.copying ∈ pending s
  clean : ∀ d, (skips s.session.backend = false → d = false) →
    skips s'.session.backend = false → dangling d answer = false
  fits : ∀ t, Agrees t s.held → Expects sql s t.awaiting → Fits sql s' (settleAll t answer)

section Serve
variable {sql : Parser} {s : State} {inbox : List Frontend} {m : Frontend} {r : Reply}
  {b' c : Server} {answer : List Backend} {h' : Held} {copying : Bytes}

theorem expects_next : Expects sql (next s inbox b' answer h' copying) aw ↔
    if skips b' then aw.dropWhile (!·.isReady) = (answers sql inbox).dropWhile (!·.isReady)
    else aw = answers sql (if b'.copy = some .simple then .query copying::inbox else inbox) := Iff.rfl

theorem surplus_next : Surplus (next s inbox b' answer h' copying) aw ↔
    inbox.countP owesReady+owedByCopy b' < aw.countP Awaited.isReady := Iff.rfl

theorem follows_ready (changes : List ReplayChange) (controls : Bool) (rest : List Awaited)
    (hcp : c.copy = none) (hsk : c.skipping = false)
    (hexp : ∀ aw, Expects sql s aw → aw.dropWhile (!·.isReady) = .ready changes controls::rest)
    (hre : rest = answers sql inbox ∨ inbox.countP owesReady < rest.countP Awaited.isReady)
    (hn : changes = [] → kept s.held h')
    (hso : changes ≠ [] → controls = false → (∃ body, r = .ok body .idle) → ∀ t,
      Agrees t s.held → Agrees (changes.foldl Tracked.commit t) h')
    (h : c.answerReady r = some (b',answer)) (hr : r.body.all inert) :
    Follows sql s (next s inbox b' answer h' copying) answer := by
  obtain ⟨status,rfl,_⟩ := answerReady_spec h hr
  refine ⟨by simp [next,hcp],fun d _ _ => dangling_answerReady h hr d,fun t ha he => ?_⟩
  -- what is awaited afterwards is what is owed, or more
  have hf : ∀ t', t'.awaiting = rest → Agrees t' h' →
      Fits sql (next s inbox {c with tx := status} answer h' copying) (.ok t') := by
    intro t' haw hag
    rcases hre with hre | hm
    · exact .inr ⟨hag,fun _ => by simp [expects_next,skips,hsk,hcp,haw,hre]⟩
    · exact .inl (by simpa [surplus_next,owedByCopy,hcp,haw] using hm)
  rcases settle_answerReady h hr (hexp _ he) with hs | ⟨hc,hs⟩ | ⟨hc,hco,hok,hs⟩ <;> rw [hs]
  · trivial
  · exact hf _ rfl (agrees_kept (agrees_awaiting ha rest) (hn hc))
  · refine hf _ ?_ (hso hc hco hok _ (agrees_awaiting ha rest))
    rw [foldl_commit_awaiting]

theorem dropWhile_answers_cons (h : owesReady m = false) (inbox : List Frontend) :
    (answers sql (m::inbox)).dropWhile (!·.isReady) =
      (answers sql inbox).dropWhile (!·.isReady) := by
  have hc := countP_awaitedFor sql m
  rw [answers_cons]
  cases hm : awaitedFor sql m with
  | none => rfl
  | some a => cases a <;> simp_all [Awaited.isReady]

theorem follows_complete {status : TransactionStatus} (hsk : skips s.session.backend = false)
    (hco : c.copy = none) (hski : c.skipping = false) (hc : ∀ d, dangling d complete = d)
    (hb : b' = {c with unsynced := true, tx := status})
    (hd : ∀ d, dangling d answer = dangling d complete)
    (hs : ∀ t, settleAll t answer = settleAll t complete)
    (hf : ∀ t, Agrees t s.held → Expects sql s t.awaiting →
      settleAll t complete = .error .marked ∨
        ∃ t', settleAll t complete = .ok t' ∧ t'.awaiting = answers sql inbox ∧ Agrees t' h') :
    Follows sql s (next s inbox b' answer h' copying) answer := by
  subst hb
  refine ⟨by simp [next,hco],fun d hcl _ => ?_,fun t ha he => ?_⟩
  · rw [hd,hc]
    exact hcl hsk
  · rw [hs]
    rcases hf t ha he with hm | ⟨t',ht,haw,hag⟩
    · rw [hm]
      trivial
    · rw [ht]
      exact .inr ⟨hag,fun _ => by simp [expects_next,skips,hski,hco,haw]⟩

theorem follows_failed {status : TransactionStatus} (hc : c.copy = none)
    (hb : b' = {c with unsynced := true, skipping := true, tx := status})
    (hk : kept s.held h')
    (hexp : ∀ aw, Expects sql s aw → aw = answers sql (m::inbox))
    (hs : ∀ t, settleAll t answer = .error .marked ∨
      settleAll t answer = .ok {t with awaiting := t.awaiting.dropWhile (!·.isReady)}) :
    Follows sql s (next s inbox b' answer h' copying) answer := by
  subst hb
  refine ⟨by simp [next,hc],fun d _ hno => by simp [next,skips,hc] at hno,fun t ha he => ?_⟩
  rcases hs t with hm | hok
  · rw [hm]
    trivial
  · rw [hok,hexp _ he]
    by_cases ho : owesReady m
    · left
      rw [surplus_next,countP_dropWhile_isReady,countP_answers,countP_cons_of_pos ho]
      simp [owedByCopy,hc]
    · refine .inr ⟨agrees_awaiting (agrees_kept ha hk) _,fun _ => ?_⟩
      simp [expects_next,skips,hc,dropWhile_idempotent,dropWhile_answers_cons (by simpa using ho)]

theorem follows_silent (hco : b'.copy = some .simple → .query copying ∈ pending s)
    (hk : kept s.held h') (hc : skips b' = false → skips s.session.backend = false)
    (hd : ∀ d, dangling d answer = d) (hs : ∀ t, settleAll t answer = .ok t)
    (hf : ∀ aw, Expects sql s aw → Surplus (next s inbox b' answer h' copying) aw ∨
      Expects sql (next s inbox b' answer h' copying) aw) :
    Follows sql s (next s inbox b' answer h' copying) answer := by
  refine ⟨hco,fun d hb hno => ?_,fun t ha he => ?_⟩
  · rw [hd]
    exact hb (hc hno)
  · rw [hs]
    exact (hf _ he).imp_right fun hexp => ⟨agrees_kept ha hk,fun _ => hexp⟩

theorem settleAll_copyIn {body : List Backend} (hr : body.all inert) (t : Tracked) :
    settleAll t (body++[.copyInResponse]) = .ok t := by
  rw [settleAll_inert hr]
  rfl

theorem dangling_copyIn {body : List Backend} (hr : body.all inert) (d : Bool) :
    dangling d (body++[.copyInResponse]) = d := dangling_inert hr d _

theorem awaitedFor_eq_none (h : owesReady m = false) (hp : preparing m = false) :
    awaitedFor sql m = none := by
  cases m with
  | query _ | sync | functionCall => cases h
  | parse _ | close _ => cases hp
  | _ => rfl

theorem answers_quiet (h : owesReady m = false) (hp : preparing m = false) (inbox : List Frontend) :
    answers sql (m::inbox) = answers sql inbox := by
  simp [answers_cons,awaitedFor_eq_none h hp]

/-- What is read in the copy-in of a simple query. -/
theorem follows_copySimple (hsq : Faithful sql) (hk : s.session.backend.copy = some .simple)
    (haw : s.session.backend.skipping = false) (hi : s.session.inbox = m::inbox)
    (hpl : plain sql (.query s.copying)) (hp : preparing m = false)
    (haf : affects sql s.session.backend s.copying m r s.held h')
    (h : s.session.backend.inCopy .simple m r = some (b',answer)) (hr : r.body.all inert) :
    Follows sql s (next s inbox b' answer h' s.copying) answer := by
  have hsk : skips s.session.backend = false := by simp [skips,hk]
  have hq : .query s.copying ∈ pending s := by simp [pending,hk]
  have hexp : ∀ aw, Expects sql s aw → aw = answers sql (.query s.copying::m::inbox) := fun aw he => by
    simpa [Expects,pending,hsk,hk,hi] using he
  have hst : ∀ {answer}, owesReady m = false → kept s.held h' → (∀ d, dangling d answer = d) →
      (∀ t, settleAll t answer = .ok t) →
      Follows sql s (next s inbox s.session.backend answer h' s.copying) answer := by
    intro answer ho hke hd hs
    refine follows_silent (fun _ => hq) hke (fun _ => hsk) hd hs fun aw he => .inr ?_
    rw [hexp aw he,answers_cons,answers_quiet ho hp,← answers_cons]
    simp [expects_next,hsk,hk]
  rcases Server.inCopy_cases h with ⟨hm,rfl,rfl,rfl⟩ | ⟨body,rfl,rfl,_,rfl,rfl⟩ | ⟨_,_,_,ha⟩
  · have hke : kept s.held h' := by simpa [affects,hk,ends] using haf
    rcases hm with rfl | rfl | rfl
    · exact hst rfl hke (fun _ => rfl) fun _ => rfl
    · -- a Sync that is ignored is awaited in vain
      refine follows_silent (fun _ => hq) hke (fun _ => hsk) (fun _ => rfl) (fun _ => rfl)
        fun aw he => .inl ?_
      rw [surplus_next,hexp aw he,countP_answers]
      simp [owedByCopy,hk,show owesReady .sync from rfl,
        show owesReady (.query s.copying) from rfl]
    · exact hst rfl hke (fun _ => rfl) fun _ => rfl
  · have hke : kept s.held h' := by simpa [affects,hk,ends] using haf
    exact hst rfl hke (dangling_copyIn hr) (settleAll_copyIn hr)
  · obtain ⟨changes,controls,hre,how⟩ := owed_query hsq hpl
    have hen : ended sql s.copying r s.held h' := by
      cases r with
      | silent | copyIn _ => cases ha
      | ok _ _ | failed _ _ => simpa [affects,hk,ends] using haf
    refine follows_ready (c := {s.session.backend with copy := none}) changes controls
      (answers sql (m::inbox)) rfl haw ?_ ?_ ?_ ?_ ha hr
    · intro aw he
      rw [hexp aw he,answers_cons,hre]
      rfl
    · by_cases ho : owesReady m
      · exact .inr (by simp [countP_answers,ho])
      · exact .inl (answers_quiet (by simpa using ho) hp inbox)
    · exact fun hn => how.none hn r _ _ hen
    · rintro hne hc ⟨body,rfl⟩ t hag
      exact how.some hne hc body _ _ t hag hen

theorem follows_copyExtended (hk : s.session.backend.copy = some .extended)
    (haw : s.session.backend.skipping = false) (hi : s.session.inbox = m::inbox)
    (haf : affects sql s.session.backend s.copying m r s.held h')
    (h : s.session.backend.inCopy .extended m r = some (b',answer)) (hr : r.body.all inert) :
    Follows sql s (next s inbox b' answer h' s.copying) answer := by
  have hsk : skips s.session.backend = false := by simp [skips,hk]
  have hke : kept s.held h' := by simpa [affects,hk] using haf
  have hexp : ∀ aw, Expects sql s aw → aw = answers sql (m::inbox) := fun aw he => by
    simpa [Expects,pending,hsk,hk,hi] using he
  have hq : owesReady m = false → preparing m = false →
      Follows sql s (next s inbox s.session.backend [] h' s.copying) [] := by
    intro ho hp
    refine follows_silent (by simp [hk]) hke (fun _ => hsk) (fun _ => rfl) (fun _ => rfl)
      fun aw he => .inr ?_
    simp [expects_next,hsk,hk,hexp aw he,answers_quiet ho hp]
  rcases Server.inCopy_cases h with ⟨hm,rfl,rfl,rfl⟩ | ⟨body,_,_,hki,_⟩ | ⟨_,_,hdo,ha⟩
  · rcases hm with rfl | rfl | rfl
    · exact hq rfl rfl
    · refine follows_silent (by simp [hk]) hke (fun _ => hsk) (fun _ => rfl) (fun _ => rfl)
        fun aw he => .inl ?_
      rw [surplus_next,hexp aw he,countP_answers]
      simp [owedByCopy,hk,show owesReady .sync from rfl]
    · exact hq rfl rfl
  · cases hki
  · rcases settle_answerExtended (c := {s.session.backend with copy := none}) ha hr with
      ⟨body,status,rfl,hb,hs,hd⟩ | ⟨body,status,_,hb,hs⟩
    · obtain rfl : m = .copyDone := by simpa using hdo
      refine follows_complete (c := {s.session.backend with copy := none}) hsk rfl haw
        (fun _ => rfl) hb hd hs fun t hag he => .inr ⟨t,rfl,?_,agrees_kept hag hke⟩
      rw [hexp _ he,answers_quiet rfl rfl]
    · exact follows_failed (c := {s.session.backend with copy := none}) rfl hb hke hexp hs

/-- What is read while everything is skipped up to a Sync. -/
theorem follows_skipping (sql : Parser) (r : Reply) (b' : Server) (answer : List Backend)
    (copying : Bytes) (hk : s.session.backend.copy = none) (hsk : s.session.backend.skipping)
    (hi : s.session.inbox = m::inbox) (hke : kept s.held h') :
    (m ≠ .sync → Follows sql s (next s inbox s.session.backend [] h' copying) []) ∧
      (m = .sync →
        {s.session.backend with skipping := false, unsynced := false}.answerReady r =
          some (b',answer) → r.body.all inert →
        Follows sql s (next s inbox b' answer h' copying) answer) := by
  have hs : skips s.session.backend := by simp [skips,hk,hsk]
  have hexp : ∀ aw, Expects sql s aw →
      aw.dropWhile (!·.isReady) = (answers sql (m::inbox)).dropWhile (!·.isReady) := fun aw he => by
    rw [(expects_skips hs).1 he,hi]
  constructor
  · intro _
    refine follows_silent (by simp [hk]) hke id (fun _ => rfl) (fun _ => rfl) fun aw he => ?_
    by_cases ho : owesReady m
    · left
      rw [surplus_next,← countP_dropWhile_isReady aw,hexp aw he,countP_dropWhile_isReady,countP_answers]
      simp [owedByCopy,hk,ho]
    · right
      simp [expects_next,hs,hexp aw he,dropWhile_answers_cons (by simpa using ho)]
  · rintro rfl h hr
    refine follows_ready (c := {s.session.backend with skipping := false, unsynced := false}) [] false
      (answers sql inbox) hk rfl ?_ (.inl rfl) (fun _ => hke) (fun hne => absurd rfl hne) h hr
    intro aw he
    rw [hexp aw he,answers_cons]
    rfl

theorem held_parse {msg : Bytes} (hp : plain sql (.parse msg)) (h : Held) :
    h.parse msg = match parseStatementName msg with
      | some name => {h with prepared := h.prepared.insert name msg}
      | none => h := by
  rw [Held.parse,parseStatementName]
  rw [plain] at hp
  cases hc : cstring (msg.drop 5) with
  | none => rfl
  | some p =>
    obtain ⟨name,rest⟩ := p
    rw [hc] at hp
    simp only [Option.all_some,plainName,Bool.and_eq_true,decide_eq_true_eq] at hp
    simp only [Option.bind_some,hp.1,if_true,take_of_length_le hp.2]
    split_ifs <;> rfl

theorem held_close {msg : Bytes} (hpl : plain sql (.close msg)) (h : Held) :
    h.close msg = match closedStatement msg with
      | some name => {h with prepared := h.prepared.erase name}
      | none => h := by
  have ht : msg.drop 6 = (msg.drop 5).tail := by rw [tail_drop]
  rw [plain,ht] at hpl
  rw [Held.close,closedStatement,closeTarget]
  cases hd : msg.drop 5 with
  | nil => rfl
  | cons marker tail =>
    rw [hd,tail_cons] at hpl
    rcases hc : cstring tail with _ | ⟨name,rest⟩
    · simp only [hc]
      split_ifs <;> rfl
    · simp only [hc,Option.all_some,plainName,Bool.and_eq_true,decide_eq_true_eq] at hpl
      by_cases hs : marker = 83
      · by_cases hne : name = [] <;> simp [hc,hs,hne,hpl.1,isUtf8,take_of_length_le hpl.2]
      · by_cases hp : marker = 80 <;> simp [hc,hs,hp,hpl.1]

theorem follows_plainReady (hk : s.session.backend.copy = none) (hc : c.copy = none)
    (hs : s.session.backend.skipping = false) (hcs : c.skipping = false)
    (hi : s.session.inbox = m::inbox) (hm : awaitedFor sql m = some (.ready [] false))
    (hke : kept s.held h') (h : c.answerReady r = some (b',answer)) (hr : r.body.all inert) :
    Follows sql s (next s inbox b' answer h' copying) answer := by
  refine follows_ready [] false (answers sql inbox) hc hcs ?_ (.inl rfl) (fun _ => hke)
    (fun hne => absurd rfl hne) h hr
  intro aw he
  have haw : aw = answers sql (m::inbox) := by simpa [Expects,pending,skips,hk,hs,hi] using he
  rw [haw,answers_cons,hm]
  rfl

theorem follows_extended (hk : s.session.backend.copy = none)
    (hski : s.session.backend.skipping = false) (hi : s.session.inbox = m::inbox)
    (hc : ∀ d, dangling d complete = d) (hf : succeeds r = false → kept s.held h')
    (hfi : succeeds r → ∀ t, Agrees t s.held → t.awaiting = answers sql (m::inbox) →
      settleAll t complete = .error .marked ∨
        ∃ t', settleAll t complete = .ok t' ∧ t'.awaiting = answers sql inbox ∧ Agrees t' h')
    (h : s.session.backend.answerExtended complete r = some (b',answer)) (hr : r.body.all inert) :
    Follows sql s (next s inbox b' answer h' copying) answer := by
  have hsk : skips s.session.backend = false := by simp [skips,hski]
  have hexp : ∀ aw, Expects sql s aw → aw = answers sql (m::inbox) := fun aw he => by
    simpa [Expects,pending,hsk,hk,hi] using he
  rcases settle_answerExtended h hr with ⟨body,status,rfl,hb,hs,hd⟩ | ⟨body,status,rfl,hb,hs⟩
  · exact follows_complete hsk hk hski hc hb hd hs fun t ha he => hfi rfl t ha (hexp _ he)
  · exact follows_failed hk hb (hf rfl) hexp hs

theorem settle_parse {msg : Bytes} {t : Tracked} (hp : plain sql (.parse msg))
    (ha : Agrees t s.held) (haw : t.awaiting = answers sql (.parse msg::inbox))
    (hk : kept (s.held.parse msg) h') : settleAll t [.parseComplete] = .error .marked ∨
      ∃ t', settleAll t [.parseComplete] = .ok t' ∧ t'.awaiting = answers sql inbox ∧
        Agrees t' h' := by
  rw [held_parse hp] at hk
  rw [answers_cons,awaitedFor] at haw
  rw [settleAll_singleton]
  cases hn : parseStatementName msg with
  | none =>
    rw [hn] at haw hk
    exact .inr ⟨{t with awaiting := answers sql inbox},by simp [settle,haw],rfl,
      agrees_kept (agrees_awaiting ha _) hk⟩
  | some name =>
    rw [hn] at haw hk
    by_cases hc : ConnectionState.atCap t.prepared name msg
    · exact .inl (by simp [settle,haw,hc])
    · exact .inr ⟨{t with prepared := t.prepared.insert name msg, awaiting := answers sql inbox},
        by simp [settle,haw,hc],rfl,agrees_awaiting (agrees_kept (agrees_insert ha name msg) hk) _⟩

theorem settle_close {msg : Bytes} {t : Tracked} (hp : plain sql (.close msg))
    (ha : Agrees t s.held) (haw : t.awaiting = answers sql (.close msg::inbox))
    (hk : kept (s.held.close msg) h') :
      ∃ t', settleAll t [.closeComplete] = .ok t' ∧ t'.awaiting = answers sql inbox ∧
        Agrees t' h' := by
  rw [held_close hp] at hk
  have haw : t.awaiting = .close (closedStatement msg)::answers sql inbox := haw.trans (answers_cons _ _ _)
  rw [settleAll_singleton]
  cases hn : closedStatement msg with
  | none =>
    rw [hn] at haw hk
    exact ⟨{t with awaiting := answers sql inbox},by simp [settle,haw],rfl,
      agrees_kept (agrees_awaiting ha _) hk⟩
  | some name =>
    rw [hn] at haw hk
    exact ⟨{t with prepared := t.prepared.erase name, awaiting := answers sql inbox},by simp [settle,haw],rfl,
      agrees_awaiting (agrees_kept (agrees_erase ha name) hk) _⟩

theorem follows_executed (hsq : Faithful sql) (hk : s.session.backend.copy = none)
    (hs : s.session.backend.skipping = false) (hi : s.session.inbox = m::inbox)
    (hp : plain sql m) (hexe : executed sql m r s.held h')
    (h : s.session.backend.ready m r = some (b',answer)) (hr : r.body.all inert) :
    Follows sql s (next s inbox b' answer h' (copyingAfter s.copying m r)) answer := by
  have hsk : skips s.session.backend = false := by simp [skips,hs]
  have hexp : ∀ aw, Expects sql s aw → aw = answers sql (m::inbox) := fun aw he => by
    simpa [Expects,pending,hsk,hk,hi] using he
  have hb : ∀ {copying}, owesReady m = false → preparing m = false → kept s.held h' →
      s.session.backend.answerExtended [] r = some (b',answer) →
      Follows sql s (next s inbox b' answer h' copying) answer := by
    intro copying how hpr hke h
    refine follows_extended hk hs hi (fun _ => rfl) (fun _ => hke) ?_ h hr
    intro _ t ha haw
    exact .inr ⟨t,rfl,haw.trans (answers_quiet how hpr inbox),agrees_kept ha hke⟩
  cases m with
  | functionCall => exact follows_plainReady hk hk hs hs hi rfl hexe h hr
  | sync =>
    exact follows_plainReady (c := {s.session.backend with unsynced := false}) hk hk hs hs hi rfl
      hexe h hr
  | bind | describe => exact hb rfl rfl hexe h
  | password => cases h
  | query body =>
    obtain ⟨changes,controls,hre,ho⟩ := owed_query hsq hp
    have hend : ∀ {copying}, ended sql body r s.held h' →
        s.session.backend.answerReady r = some (b',answer) →
        Follows sql s (next s inbox b' answer h' copying) answer := by
      intro copying hen h
      refine follows_ready changes controls (answers sql inbox) hk hs ?_ (.inl rfl) ?_ ?_ h hr
      · intro aw he
        rw [hexp aw he,answers_cons,hre]
        rfl
      · exact fun hn => ho.none hn r _ _ hen
      · rintro hne hc ⟨reply,rfl⟩ t hag
        exact ho.some hne hc reply _ _ t hag hen
    cases r with
    | silent => cases h
    | ok _ _ | failed _ _ => exact hend hexe h
    | copyIn reply =>
      cases h
      refine follows_silent (fun _ => by simp [pending,hk,hi,copyingAfter]) hexe (fun _ => hsk)
        (dangling_copyIn hr) (settleAll_copyIn hr) fun aw he => .inr ?_
      simp [expects_next,skips,hexp aw he,copyingAfter]
  | parse msg =>
    refine follows_extended hk hs hi (fun _ => rfl) (fun hno => by simpa [executed,hno] using hexe)
      (fun hy t ha haw => ?_) h hr
    exact settle_parse hp ha haw (by simpa [executed,hy] using hexe)
  | close msg =>
    refine follows_extended hk hs hi (fun _ => rfl) (fun hno => by simpa [executed,hno] using hexe)
      (fun hy t ha haw => ?_) h hr
    exact .inr (settle_close hp ha haw (by simpa [executed,hy] using hexe))
  | execute =>
    cases r with
    | silent => cases h
    | ok _ _ | failed _ _ => exact hb rfl rfl hexe h
    | copyIn reply =>
      cases h
      refine follows_silent (by simp) hexe (fun _ => hsk) (dangling_copyIn hr)
        (settleAll_copyIn hr) fun aw he => .inr ?_
      simp [expects_next,skips,hexp aw he,answers_quiet (m := .execute) rfl rfl]
  | flush | copyData | copyDone | copyFail =>
    cases r with
    | silent =>
      cases h
      refine follows_silent (by simp [hk]) hexe (fun _ => hsk) (fun _ => rfl) (fun _ => rfl)
        fun aw he => .inr ?_
      simp [expects_next,hsk,hk,(hexp aw he).trans (answers_quiet rfl rfl inbox)]
    | _ => cases h

theorem copyingAfter_eq (h : copies r = false) (copying : Bytes) :
    copyingAfter copying m r = copying := by
  cases r with
  | copyIn _ => cases h
  | _ => cases m <;> rfl

theorem follows_serve (hsq : Faithful sql) (hb : Server.Coherent s.session.backend)
    (hi : s.session.inbox = m::inbox) (hp : ∀ m ∈ pending s, plain sql m)
    (hpr : s.session.backend.copy = some .simple → preparing m = false)
    (haf : affects sql s.session.backend s.copying m r s.held h')
    (h : s.session.backend.serve m r = some (b',answer)) :
    Follows sql s (next s inbox b' answer h' (copyingAfter s.copying m r)) answer := by
  rw [Server.serve.eq_def,Option.ite_none_left_eq_some] at h
  obtain ⟨hal,h⟩ := h
  have hr : r.body.all inert := by
    simp only [Bool.or_eq_true,Bool.not_eq_eq_eq_not,Bool.not_true,not_or,Bool.not_eq_false] at hal
    exact hal.2
  cases hk : s.session.backend.copy with
  | some kind =>
    simp only [hk] at h
    have haw := hb.awake (by simp [hk])
    have hke : copyingAfter s.copying m r = s.copying := by
      rcases Server.inCopy_cases h with ⟨_,rfl,_⟩ | ⟨_,rfl,_⟩ | ⟨_,_,_,ha⟩
      · exact copyingAfter_eq rfl _
      · rfl
      · cases r with
        | copyIn _ => cases kind <;> cases ha
        | _ => exact copyingAfter_eq rfl _
    rw [hke]
    cases kind with
    | simple =>
      have hq : plain sql (.query s.copying) := hp _ (by simp [pending,hk])
      exact follows_copySimple hsq hk haw hi hq (hpr hk) haf h hr
    | extended => exact follows_copyExtended hk haw hi haf h hr
  | none =>
    simp only [hk] at h
    by_cases hs : s.session.backend.skipping
    · rw [if_pos hs] at h
      have hkp : kept s.held h' := by simpa [affects,hk,hs] using haf
      have hf := follows_skipping sql r b' answer (copyingAfter s.copying m r) hk hs hi hkp
      split at h
      · exact hf.2 rfl (by dsimp only; rw [hk]; exact h) hr
      · next hsy =>
        cases h
        exact hf.1 hsy
      · cases h
    · rw [if_neg hs] at h
      have hno : s.session.backend.skipping = false := by simpa using hs
      have he : executed sql m r s.held h' := by simpa [affects,hk,hs] using haf
      exact follows_executed hsq hk hno hi (hp m (by simp [pending,hk,hi])) he h hr

end Serve

section Run
variable {sql : Parser} {s : State}

theorem fits_of_surplus {m : Frontend} {inbox : List Frontend} {b : Server} {answer : List Backend}
    {held : Held} {copying : Bytes} {t : Tracked} (hi : s.session.inbox = m::inbox)
    (hc : answer.countP isReadyForQuery+owedByCopy b ≤
      (if owesReady m then 1 else 0)+owedByCopy s.session.backend)
    (h : Surplus s t.awaiting) :
    Fits sql (next s inbox b answer held copying) (settleAll t answer) := by
  rw [Surplus,hi,countP_cons] at h
  cases hs : settleAll t answer with
  | error fate =>
    cases fate with
    | marked => trivial
    | lost => exact absurd hs (settleAll_ne_lost (by omega))
  | ok t' =>
    have hco := settleAll_count hs
    exact .inl (surplus_next.2 (by omega))

theorem inv_serve {m : Frontend} {inbox : List Frontend} {r : Reply} {b : Server}
    {answer : List Backend} {held : Held} (hsq : Faithful sql) (h : Inv sql s)
    (hi : s.session.inbox = m::inbox)
    (hp : s.session.backend.copy = some .simple → preparing m = false)
    (haf : affects sql s.session.backend s.copying m r s.held held)
    (hr : s.session.backend.serve m r = some (b,answer)) :
    Inv sql (next s inbox b answer held (copyingAfter s.copying m r)) := by
  have hf := follows_serve hsq h.coherent hi h.plain hp haf hr
  have hal := Server.alive_of_serve hr
  obtain ⟨_,hv⟩ := serve_served h.coherent hr
  refine ⟨hv.coherent,?_,fun _ hsk => ?_,h.fits.imp id fun hfi => ?_⟩
  · have hin : ∀ m' ∈ inbox, plain sql m' := by
      intro m' hm'
      refine h.plain m' ?_
      rw [pending]
      split_ifs <;> simp [hi,hm']
    rw [pending]
    split_ifs with hk
    · exact forall_mem_cons.2 ⟨h.plain _ (hf.copying hk),hin⟩
    · exact hin
  · have hap : dangling false (s.session.outbox++answer) =
        dangling (dangling false s.session.outbox) answer := foldl_append
    exact hap.trans (hf.clean _ (h.clean hal) hsk)
  · change Fits sql _ (settleAll (track s.session.gateway) (s.session.outbox++answer))
    rw [settleAll_append]
    cases hs : settleAll (track s.session.gateway) s.session.outbox with
    | error fate =>
      rw [hs] at hfi
      cases fate <;> exact hfi
    | ok t =>
      rw [hs] at hfi
      rcases hfi with hsu | ⟨ha,he⟩
      · exact fits_of_surplus hi hv.counted hsu
      · exact hf.fits t ha (he hal)

theorem inv_client (batch : List Frontend) (h : Inv sql s) (hp : ∀ m ∈ batch, plain sql m) :
    Inv sql {s with session := {s.session with
      gateway := processClientData sql s.session.gateway batch
      inbox := s.session.inbox++batch}} := by
  rw [processClientData_eq_foldl]
  induction batch generalizing s with
  | nil => simpa using h
  | cons m batch ih =>
    obtain ⟨hm,hp⟩ := forall_mem_cons.1 hp
    have hr := ih (inv_forwarded h hm) hp
    rwa [forwarded,append_assoc] at hr

theorem inv_deliver (n : ℕ) (h : Inv sql s) :
    Inv sql {s with session := {s.session with
      gateway := processBackendData s.session.gateway (s.session.outbox.take n)
      outbox := s.session.outbox.drop n}} := by
  rw [processBackendData_eq_foldl]
  induction n generalizing s with
  | zero => exact h
  | succ n ih =>
    cases ho : s.session.outbox with
    | nil =>
      rw [← ho]
      have heq : s.session.outbox.take (n+1) = [] ∧ s.session.outbox.drop (n+1) = s.session.outbox := by
        simp [ho]
      rw [heq.1,heq.2]
      exact h
    | cons m rest => exact ih (inv_observed h ho)

theorem inv_step {s' : State} {e : Event} (hsq : Faithful sql) (h : Inv sql s) (hp : Plain sql s e)
    (hs : step sql s e = some s') : Inv sql s' := by
  cases e with
  | client batch =>
    cases hs
    exact inv_client batch h hp.1
  | serve reply held =>
    rw [step] at hs
    cases hi : s.session.inbox with
    | nil => simp [hi] at hs
    | cons m inbox =>
      simp only [hi,Option.ite_none_right_eq_some] at hs
      obtain ⟨ha,hs⟩ := hs
      obtain ⟨t,ht,rfl⟩ := Option.map_eq_some_iff.1 hs
      rw [InFlight.step,hi] at ht
      obtain ⟨⟨b,answer⟩,hr,rfl⟩ := Option.map_eq_some_iff.1 ht
      exact inv_serve hsq h hi (fun hk => by simpa [interrupts,hk,hi] using hp.2) ha hr
  | fatal =>
    rw [step] at hs
    obtain ⟨t,ht,rfl⟩ := Option.map_eq_some_iff.1 hs
    obtain ⟨_,⟨⟩⟩ := Option.ite_none_right_eq_some.1 ht
    exact inv_fatal h
  | deliver n =>
    cases hs
    exact inv_deliver n h

theorem inv_init : Inv sql {} where
  coherent := ⟨by simp,by simp,by simp⟩
  plain := by simp [pending]
  clean _ _ := rfl
  fits := .inr (.inr ⟨⟨fun _ => rfl,rfl,rfl⟩,fun _ => rfl⟩)

theorem same_of_inv (h : Inv sql s) (hm : s.session.gateway.isMigratable) :
    Same s.session.gateway s.held := by
  simp only [ConnectionState.isMigratable,ConnectionState.responsePending,Bool.and_eq_true,
    decide_eq_true_eq,Bool.not_eq_true',Bool.or_eq_false_iff,decide_eq_false_iff_not,not_not] at hm
  obtain ⟨⟨_,haw,_⟩,hma⟩ := hm
  have hn := settleAll_nil (t := track s.session.gateway) (l := s.session.outbox) haw
  have hf := h.fits.resolve_left (by simp [hma])
  cases hs : settleAll (track s.session.gateway) s.session.outbox with
  | error fate =>
    rw [hs] at hf
    cases fate with
    | marked => exact absurd hs hn.1
    | lost => exact absurd hf id
  | ok t =>
    rw [hs] at hf
    obtain rfl := hn.2 t hs
    rcases hf with hsu | ⟨ha,_⟩
    · simp [Surplus,show (track s.session.gateway).awaiting = [] from haw] at hsu
    · exact ⟨ha.prepared,ha.channels⟩

theorem tracked_same (sql : Parser) (hsql : Faithful sql) (es : List Event) (s : State)
    (hplain : Guarded (step sql) (Plain sql) {} es) (hrun : run (step sql) {} es = some s)
    (hm : s.session.gateway.isMigratable) : Same s.session.gateway s.held :=
  same_of_inv (run_invariant_guarded (fun _ _ _ h hp hs => inv_step hsql h hp hs) inv_init hplain
    hrun) hm

end Run

def table (entries : List (Bytes × List Node)) : Parser where
  parse text := (entries.find? fun e => e.1 = text).map Prod.snd
  splitWithScanner _ := none
  fromUtf8Lossy := id

/-- A statement is reported of a text that has its keyword. -/
def Reported (text : Bytes) : Node → Prop
  | .listenStmt name => name ≠ [] ∧ Occurs (ascii "listen") text
  | .unlistenStmt _ => Occurs (ascii "unlisten") text
  | .deallocateStmt isall name => (isall ∨ name ≠ []) ∧ Leads (ascii "deallocate") text
  | .discardStmt _ => Leads (ascii "discard") text
  | .variableSetStmt _ | .createStmt _ | .createTableAsStmt _ | .viewStmt _ | .createSeqStmt _
  | .selectStmt _ | .prepareStmt | .doStmt | .callStmt | .loadStmt | .declareCursorStmt _
  | .transactionStmt | .leavesNoSessionState | .other => True

theorem table_faithful {entries : List (Bytes × List Node)}
    (h : ∀ e ∈ entries, ∀ node ∈ e.2, Reported e.1 node) : Faithful (table entries) := by
  have hr : ∀ text nodes node, (table entries).parse text = some nodes → node ∈ nodes →
      Reported text node := by
    intro text nodes node hpa hno
    obtain ⟨e,hf,rfl⟩ := Option.map_eq_some_iff.1 hpa
    have ht : e.1 = text := by simpa using List.find?_some hf
    exact ht ▸ h e (List.mem_of_find?_eq_some hf) node hno
  exact ⟨fun _ _ => rfl,fun _ _ _ hp hn => hr _ _ _ hp hn,fun _ _ _ hp hn => hr _ _ _ hp hn,
    fun _ _ _ _ hp hn => hr _ _ _ hp hn,fun _ _ _ hp hn => hr _ _ _ hp hn⟩

def texts : Parser := table
  [(ascii "LISTEN a",[.listenStmt (ascii "a")]),
    (ascii "LISTEN \" a\"",[.listenStmt (ascii " a")]),
    (ascii "UNLISTEN \"*\"",[.unlistenStmt (ascii "*")]),
    (ascii "--\rDEALLOCATE q",[.deallocateStmt false (ascii "q")]),
    (ascii "COPY t FROM STDIN",[.leavesNoSessionState])]

theorem texts_faithful : Faithful texts := by
  refine table_faithful ?_
  have hl : Gap (ascii "--\r") :=
    @Gap.line [] 13 [] (by simp) (.inr rfl) Gap.nil
  simp only [forall_mem_cons,not_mem_nil,false_imp_iff,implies_true,and_true,Reported]
  refine ⟨⟨by decide,[],_,rfl,rfl,by decide +kernel,by decide +kernel⟩,
    ⟨by decide,[],_,rfl,rfl,by decide +kernel,by decide +kernel⟩,
    ⟨[],_,rfl,rfl,by decide +kernel,by decide +kernel⟩,.inr (by decide),?_⟩
  exact .first _ (ascii "DEALLOCATE q") hl ⟨by decide +kernel,by decide +kernel⟩ (by decide +kernel)

def query (text : String) : Frontend := .query (ascii text++[0])

def parseMessage (name : Bytes) : Bytes :=
  [80,0,0,0,Fin.ofNat 256 (name.length+16)]++name++[0]++ascii "SELECT 1"++[0,0,0]

def messages : List Frontend := [.parse (parseMessage (ascii "q")),.sync,query "LISTEN a"]

/-- A statement is prepared and a channel listened on, and the gateway sees both answered. -/
def conversation : List Event :=
  let prepared := (∅ : AList fun _ : Bytes => Bytes).insert (ascii "q") (parseMessage (ascii "q"))
  [.client [.parse (parseMessage (ascii "q")),.sync],
    .serve (.ok [] .idle) ⟨prepared,∅,false⟩,.serve (.ok [] .idle) ⟨prepared,∅,false⟩,
    .client [query "LISTEN a"],.deliver 2,
    .serve (.ok [.other] .idle) ⟨prepared,{ascii "a"},false⟩,.deliver 2]

theorem tracked_same_conversation :
    (run (step texts) {} conversation).any fun s =>
      decide (s.held.channels = {ascii "a"} ∧ s.session.gateway.isMigratable ∧
        Same s.session.gateway s.held) := by
  have hm : ∀ m ∈ messages, plain texts m := by
    simp only [messages,forall_mem_cons,not_mem_nil,false_imp_iff,implies_true,and_true]
    have hq : (cstring ((parseMessage (ascii "q")).drop 5)).all fun p => plainName p.1 := by
      decide +kernel
    refine ⟨hq,trivial,fun text rest hc => ?_⟩
    have ht : cstring (ascii "LISTEN a"++[0]) = some (ascii "LISTEN a",[]) := by decide +kernel
    obtain ⟨rfl,rfl⟩ := Prod.mk.inj (Option.some.inj (ht.symm.trans hc))
    refine ⟨by decide +kernel,fun nodes hn => ?_⟩
    have hl : texts.parse (ascii "LISTEN a") = some [.listenStmt (ascii "a")] := by decide +kernel
    obtain rfl := Option.some.inj (hl.symm.trans hn)
    exact ⟨by decide +kernel,nofun⟩
  have hg : Guarded (step texts) (fun s e => (∀ m ∈ sent e, m ∈ messages) ∧ interrupts s e = false) {}
      conversation := by decide +kernel
  have hp : Guarded (step texts) (Plain texts) {} conversation :=
    @Guarded.imp _ _ _ _ _ (fun _ => True) (fun _ _ _ _ _ _ => trivial)
      (fun _ _ _ h => ⟨fun m hs => hm m (h.1 m hs),h.2⟩) _ _ trivial hg
  have hr : (run (step texts) {} conversation).any fun s =>
      decide (s.held.channels = {ascii "a"} ∧ s.session.gateway.isMigratable) := by decide +kernel
  obtain ⟨s,hs,hm⟩ := (Option.any_eq_true _ _).1 hr
  obtain ⟨hc,hm⟩ := of_decide_eq_true hm
  have hsa := tracked_same texts texts_faithful conversation s hp hs hm
  rw [hs]
  exact decide_eq_true ⟨hc,hm,hsa⟩

def asked (text : String) (held : Held) : List Event :=
  [.client [query text],.serve (.ok [.other] .idle) held,.deliver 2]

def prepares (name : Bytes) (held : Held) : List Event :=
  [.client [.parse (parseMessage name),.sync],.serve (.ok [] .idle) held,.serve (.ok [] .idle) held,
    .deliver 2]

def statement (name : Bytes) : AList fun _ : Bytes => Bytes :=
  (∅ : AList fun _ : Bytes => Bytes).insert (name.take nameLength) (parseMessage name)

/-- A copy-in that a Parse message breaks off; the next Parse is answered, and its Bind fails. -/
def brokenCopy : List Event :=
  let prepared := statement (ascii "r")
  [.client [query "COPY t FROM STDIN",.parse (parseMessage (ascii "q")),
      .parse (parseMessage (ascii "r")),.bind,.sync],
    .serve (.copyIn []) {},.serve (.failed [] .idle) {},
    .serve (.ok [] .idle) ⟨prepared,∅,false⟩,.serve (.failed [] .idle) ⟨prepared,∅,false⟩,
    .serve (.ok [] .idle) ⟨prepared,∅,false⟩,.deliver 6]

/-- Sessions the gateway would move with a record that is not what the backend holds: a channel
whose name begins with a blank, a channel named `*`, a comment that ends at a carriage return, names
that are not text or are cut by the server, and a Parse read in copy-in mode. -/
theorem migratable_differs :
    [asked "LISTEN \" a\"" ⟨∅,{ascii " a"},false⟩,
        asked "LISTEN a" ⟨∅,{ascii "a"},false⟩++asked "UNLISTEN \"*\"" ⟨∅,{ascii "a"},false⟩,
        prepares (ascii "q") ⟨statement (ascii "q"),∅,false⟩++asked "--\rDEALLOCATE q" {},
        prepares [255] ⟨statement [255],∅,false⟩,
        prepares (List.replicate 64 113) ⟨statement (List.replicate 64 113),∅,false⟩,brokenCopy].Forall
      fun es => (run (step texts) {} es).any fun s =>
        decide (s.session.gateway.isMigratable ∧ ¬Same s.session.gateway s.held) := by
  rw [forall_iff_forall_mem]
  decide +kernel

end TrackedSession
end PgBattery
