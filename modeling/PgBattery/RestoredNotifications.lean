import PgBattery.Chunking

/-! What of a new backend's messages reaches the client of a session that is restored on it: the
restore absorbs every message up to its last ReadyForQuery, what the same read brought after it waits
in the buffer, and the proxy loop forwards the buffer with the next read. -/
namespace PgBattery
namespace RestoredNotifications
open Postcard Packets Analysis Gateway Failover Chunking TransitionSystem StateMachine List
open CancelRouting (i32FromBeBytes issuedKey node)

/-- The text of the code field among the fields of an ErrorResponse. -/
def codeField : ℕ → Bytes → Option Bytes
  | 0, _ | _+1, [] => none
  | n+1, code::rest =>
    if code = 0 then none
    else match rest.idxOf? 0 with
      | none => none
      | some stop =>
        if code = 67 then some (rest.take stop) |>.filter isUtf8 else codeField n (rest.drop (stop+1))

def errorSqlstate (msg : Bytes) : Option Bytes := codeField (msg.drop 5).length (msg.drop 5)

def authenticationCode (msg : Bytes) : ℤ :=
  if msg.length < 9 then -1 else i32FromBeBytes ((msg.drop 5).take 4)

/-- A whole backend message with the parts of it that are read. A notification has the process id of
its sender, the channel and the payload, the two as C strings. -/
def message (msg : Bytes) : Message :=
  match msg.head? with
  | some 82 => .authentication (authenticationCode msg)
  | some 75 => match issuedKey msg with
    | some key => .backendKeyData key.pid key.secret
    | none => .other
  | some 69 => .errorResponse (errorSqlstate msg)
  | some 65 =>
    let channel := (msg.drop 9).takeWhile (· ≠ 0)
    .notificationResponse channel (((msg.drop 9).drop (channel.length+1)).takeWhile (· ≠ 0))
  | some 90 => .readyForQuery (transactionStatus ((msg.drop 5).headD 73))
  | some 49 => .parseComplete
  | some 51 => .closeComplete
  | some 71 => .copyInResponse
  | some 72 => .copyOutResponse
  | some 87 => .copyBothResponse
  | _ => .other

def listenComplete : Bytes := packet 67 (ascii "LISTEN"++[0])

def notification (channel payload : Bytes) : Bytes := packet 65 ([0,0,0,7]++channel++[0]++payload++[0])

/-- What one read brings: the messages it completes, and the bytes of the next that it leaves. -/
structure Arrival where
  messages : List Bytes
  begun : Bytes

/-- The reads of a backend's stream, when the buffer holds the beginning of a message. -/
def arrivals : Bytes → List Bytes → List Arrival
  | _, [] => []
  | begun, bytes::reads => match framed maxGatewayBufferSize (begun++bytes) with
    | .ok (messages,rest) => ⟨messages,rest⟩::arrivals rest reads
    | .error _ => []

def Arrival.size (a : Arrival) (pending : List Bytes) : ℕ :=
  (pending++a.messages).flatten.length+a.begun.length

/-- The messages that a restore leaves in the buffer when it has consumed so many, and the reads
after the last one it made. -/
def leftover : ℕ → List Arrival → List Bytes × List Arrival
  | _, [] => ([],[])
  | n, a::later =>
    if n ≤ a.messages.length then (a.messages.drop n,later)
    else leftover (n-a.messages.length) later

/-- The messages that the proxy loop forwards with each read; it ends when the buffer is too long. -/
def forward : List Bytes → List Arrival → List Bytes
  | _, [] => []
  | pending, a::later =>
    if maxGatewayBufferSize < a.size pending then [] else pending++a.messages++forward [] later

/-- One restore of a session on a new backend: the order in which the channels are listened on is
that of a hash set, and the reads are those of a valid stream, which `ended` ends. -/
structure Restore where
  handler : Handler
  target : SocketAddr
  channels : List Bytes
  nodup : channels.Nodup
  tracked : channels.toFinset = handler.state.channels
  reads : List Bytes
  nonempty : ∀ bytes ∈ reads, bytes ≠ []
  valid : (framed maxGatewayBufferSize reads.flatten).isOk = true
  ended : Failover.Error := .backendDisconnected

namespace Restore

def arrivals (r : Restore) : List Arrival := RestoredNotifications.arrivals [] r.reads

def sent (r : Restore) : List Bytes := r.arrivals.flatMap Arrival.messages

def attempt (r : Restore) : Attempt where
  view := r.handler.view
  routed := r.handler.view
  sent := r.sent.map message
  ended := r.ended

/-- How many of the messages the restore absorbs, and those after them that the client is sent. When
the restore fails, all are lost with the connection. -/
def delivery (r : Restore) : ℕ × List Bytes :=
  match (r.handler.migrate r.target r.attempt).2 with
  | .error _ => (r.sent.length,[])
  | .ok moved =>
    let absorbed := r.sent.length-moved.rest.length
    let (pending,later) := leftover absorbed r.arrivals
    (absorbed,forward pending later)

end Restore

/-- How far a restore is, by the messages the backend has sent: the requests it has still to answer,
each with the channel it listens on, the channels it has acknowledged, and whether it has refused
the request at hand. -/
structure Progress where
  steps : List (Option Bytes)
  acked : List Bytes := []
  refused : Bool := false

namespace Progress

def read (p : Progress) (msg : Bytes) : Progress :=
  match p.steps with
  | [] => p
  | request::later =>
    if msg = listenComplete then {p with acked := request.toList++p.acked}
    else match message msg with
      -- A challenge is not answered, and after a refusal no further request is made.
      | .authentication code => if code ≠ 0 then {p with steps := [], refused := true} else p
      | .errorResponse _ => {p with refused := true}
      | .readyForQuery _ => {p with steps := if p.refused then [] else later}
      | _ => p

def restored (p : Progress) : Bool := p.steps.isEmpty && !p.refused

def awaits (p : Progress) (msg : Bytes) : Bool :=
  match message msg with
  | .notificationResponse channel _ => channel ∈ p.acked
  | _ => false

def after (p : Progress) : List Bytes → Option (List Bytes)
  | [] => none
  | msg::sent => if (p.read msg).restored then some sent else (p.read msg).after sent

def resume (p : Progress) : List Arrival → Option (List Bytes × List Arrival)
  | [] => none
  | a::later => match p.after a.messages with
    | some pending => some (pending,later)
    | none => (a.messages.foldl read p).resume later

/-- No awaited notification is among the messages that wait when no read follows, or that come with
a read that makes the buffer too long or after it. -/
def fits (p : Progress) : List Bytes → List Arrival → Bool
  | pending, [] => pending.all fun msg => !p.awaits msg
  | pending, a::later =>
    if a.size pending ≤ maxGatewayBufferSize then p.fits [] later
    else (pending++a.messages++later.flatMap Arrival.messages).all fun msg => !p.awaits msg

end Progress

namespace Restore

/-- The startup message, a LISTEN for each channel, and a Parse for each statement. -/
def steps (r : Restore) : List (Option Bytes) :=
  none::(r.channels.map some++List.replicate r.handler.state.prepared.entries.length none)

def start (r : Restore) : Progress := {steps := r.steps}

def progress (r : Restore) (sent : List Bytes) : Progress := sent.foldl Progress.read r.start

def Delivers (r : Restore) (earlier : List Bytes) : Prop :=
  r.delivery.1 ≤ earlier.length ∧ earlier.length < r.delivery.1+r.delivery.2.length

/-- Every awaited notification is delivered. -/
def LosesNone (r : Restore) : Prop :=
  ∀ earlier msg later, r.sent = earlier++msg::later → (r.progress earlier).awaits msg →
    r.Delivers earlier

/-- Awaited notifications come after the ReadyForQuery that completes the restore, and the buffer
they are in is read again and not too long. -/
structure Quiet (r : Restore) : Prop where
  restored : ∀ earlier msg later, r.sent = earlier++msg::later → (r.progress earlier).awaits msg →
    (r.progress earlier).restored
  fits : ∀ q ∈ r.start.resume r.arrivals, (r.progress r.sent).fits q.1 q.2

end Restore

section Wait
variable {h : Handler} {ended : Failover.Error}

theorem andThen_assoc {α β γ : Type} (r : Outcome α) (f : Handler → α → Outcome β)
    (g : Handler → β → Outcome γ) :
    (r.andThen f).andThen g = r.andThen fun h a => (f h a).andThen g := by
  simp only [Outcome.andThen]
  cases r.2 with
  | ok a => rfl
  | error e => rfl

theorem andThen_congr {α β : Type} {r : Outcome α} {f g : Handler → α → Outcome β}
    (hfg : ∀ a, r.2 = .ok a → f r.1 a = g r.1 a) : r.andThen f = r.andThen g := by
  simp only [Outcome.andThen]
  cases hr : r.2 with
  | ok a => exact hfg a hr
  | error e => rfl

theorem andThen_toOption {α β : Type} (r : Outcome α) (f : α → β) :
    (r.andThen fun h a => (h,.ok (f a))).2.toOption = r.2.toOption.map f := by
  rw [Outcome.andThen]
  cases r.2 with
  | ok a => rfl
  | error e => rfl

theorem waitForReady_fst {sent rest : List Message} (hr : (h.waitForReady ended sent).2 = .ok rest) :
    (h.waitForReady ended sent).1 = h := by
  rw [Handler.waitForReady] at hr ⊢
  split at hr
  · rfl
  · dsimp only at hr ⊢
    split_ifs at hr
    cases hr
  · cases hr
  · cases hr

theorem waitForEach_fst {n : ℕ} {sent rest : List Message}
    (hr : (h.waitForEach ended n sent).2 = .ok rest) : (h.waitForEach ended n sent).1 = h := by
  induction n generalizing h sent with
  | zero => rfl
  | succ n ih =>
    rw [Handler.waitForEach] at hr ⊢
    obtain ⟨rest₁,hf,heq⟩ := andThen_eq_ok hr
    rw [heq] at hr ⊢
    rw [ih hr,waitForReady_fst hf]

theorem waitForEach_add (m n : ℕ) (sent : List Message) :
    h.waitForEach ended (m+n) sent = (h.waitForEach ended m sent).andThen (Handler.waitForEach ended n) := by
  induction m generalizing h sent with
  | zero =>
    rw [Nat.zero_add]
    rfl
  | succ m ih =>
    rw [Nat.succ_add]
    simp only [Handler.waitForEach,andThen_assoc]
    congr 1
    funext h' rest
    exact ih rest

/-- The messages left when a wait that has seen a refusal or not, and so many waits after it, are
over. -/
def waited (h : Handler) (ended : Failover.Error) (refused : Option Bytes) (n : ℕ)
    (sent : List Message) : Option (List Message) :=
  match readUntilReady ended refused sent with
  | .ok (.ready,rest) => (h.waitForEach ended n rest).2.toOption
  | _ => none

theorem waitForEach_succ (n : ℕ) (sent : List Message) :
    (h.waitForEach ended (n+1) sent).2.toOption = waited h ended none n sent := by
  rw [Handler.waitForEach,Handler.waitForReady,waited]
  cases readUntilReady ended none sent with
  | error e => rfl
  | ok r =>
    obtain ⟨o,rest⟩ := r
    cases o with
    | ready => rfl
    | authChallenge code => rfl
    | refused sqlstate =>
      dsimp only
      split_ifs <;> rfl

end Wait

variable {q : List Bytes × List Arrival}

namespace Progress
variable {p : Progress} {sent : List Bytes}

@[simp] theorem read_over (h : p.steps = []) (msg : Bytes) : p.read msg = p := by
  simp [read,h]

theorem foldl_read_over (h : p.steps = []) (sent : List Bytes) : sent.foldl read p = p := by
  induction sent with
  | nil => rfl
  | cons msg sent ih => rw [foldl_cons,read_over h,ih]

theorem after_over (h : p.steps = []) (hr : p.refused) : p.after sent = none := by
  induction sent with
  | nil => rfl
  | cons msg sent ih => simp [after,read_over h,restored,hr,ih]

theorem restored_iff : p.restored ↔ p.steps = [] ∧ p.refused = false := by
  simp [restored]

theorem foldl_read_restored (h : p.restored) (sent : List Bytes) : sent.foldl read p = p :=
  foldl_read_over (restored_iff.1 h).1 sent

theorem after_append (p : Progress) (sent more : List Bytes) : p.after (sent++more) =
    match p.after sent with
    | some rest => some (rest++more)
    | none => (sent.foldl read p).after more := by
  induction sent generalizing p with
  | nil => rfl
  | cons msg sent ih =>
    by_cases h : (p.read msg).restored
    · simp [after,h]
    · simpa [after,h] using ih (p.read msg)

theorem restored_foldl (h : p.restored = false) (sent : List Bytes) :
    (sent.foldl read p).restored = (p.after sent).isSome := by
  induction sent generalizing p with
  | nil => exact h
  | cons msg sent ih =>
    rw [foldl_cons,after]
    cases hr : (p.read msg).restored with
    | true => rw [foldl_read_restored hr,hr,if_pos rfl,Option.isSome_some]
    | false => rw [ih hr,if_neg Bool.false_ne_true]

theorem after_length {rest : List Bytes} (h : p.after sent = some rest) :
    ∃ front, front ≠ [] ∧ sent = front++rest := by
  induction sent generalizing p with
  | nil => cases h
  | cons msg sent ih =>
    rw [after] at h
    split_ifs at h with hr
    · cases h
      exact ⟨[msg],by simp,rfl⟩
    · obtain ⟨front,hne,rfl⟩ := ih h
      exact ⟨msg::front,by simp,rfl⟩

theorem after_flatMap (p : Progress) (reads : List Arrival) :
    p.after (reads.flatMap Arrival.messages) =
      (p.resume reads).map fun q => q.1++q.2.flatMap Arrival.messages := by
  induction reads generalizing p with
  | nil => rfl
  | cons a later ih =>
    rw [flatMap_cons,after_append,resume]
    cases p.after a.messages with
    | some pending => rfl
    | none => exact ih _

theorem leftover_resume {reads : List Arrival} (h : p.resume reads = some q) :
    leftover ((reads.flatMap Arrival.messages).length-(q.1++q.2.flatMap Arrival.messages).length) reads = q := by
  induction reads generalizing p with
  | nil => cases h
  | cons a later ih =>
    rw [resume] at h
    rw [leftover,flatMap_cons,length_append]
    cases ha : p.after a.messages with
    | some pending =>
      rw [ha] at h
      cases h
      obtain ⟨front,-,hf⟩ := after_length ha
      have hle : a.messages.length+(later.flatMap Arrival.messages).length-
          (pending++later.flatMap Arrival.messages).length = front.length := by
        rw [hf,length_append,length_append]
        omega
      rw [hle,if_pos (by simp [hf]),hf,drop_left]
    | none =>
      rw [ha] at h
      dsimp only at h
      have haf := after_flatMap (a.messages.foldl read p) later
      rw [h,Option.map_some] at haf
      obtain ⟨front,hne,hf⟩ := after_length haf
      have hp := List.length_pos_iff.2 hne
      have hl := congrArg List.length hf
      rw [length_append] at hl
      have hr : a.messages.length+(later.flatMap Arrival.messages).length-
          (q.1++q.2.flatMap Arrival.messages).length-a.messages.length =
            (later.flatMap Arrival.messages).length-(q.1++q.2.flatMap Arrival.messages).length := by omega
      rw [if_neg (by omega),hr,ih h]

theorem fits_eq (pending : List Bytes) (reads : List Arrival) : p.fits pending reads =
    ((pending++reads.flatMap Arrival.messages).drop (forward pending reads).length).all
      fun msg => !p.awaits msg := by
  induction reads generalizing pending with
  | nil => simp [fits,forward]
  | cons a later ih =>
    rw [fits,forward,flatMap_cons,← append_assoc]
    by_cases hs : a.size pending ≤ maxGatewayBufferSize
    · rw [if_pos hs,if_neg (not_lt.2 hs),length_append,drop_length_add_append,ih,
        nil_append]
    · rw [if_neg hs,if_pos (not_le.1 hs),length_nil,drop_zero]

end Progress

theorem message_listenComplete : message listenComplete = .other := by decide +kernel

theorem waited_eq_after {h : Handler} {ended : Failover.Error} {request : Option Bytes}
    {later : List (Option Bytes)} {acked : List Bytes} (refused : Option Bytes) (sent : List Bytes) :
    waited h ended refused later.length (sent.map message) =
      ((Progress.mk (request::later) acked refused.isSome).after sent).map (List.map message) := by
  induction sent generalizing request later acked refused with
  | nil =>
    cases refused with
    | none => rfl
    | some sqlstate =>
      simp only [waited,map_nil,readUntilReady]
      split_ifs <;> rfl
  | cons msg sent ih =>
    have hs : ∀ (refused' : Option Bytes) (acked' : List Bytes),
        readUntilReady ended refused (message msg::sent.map message) =
          readUntilReady ended refused' (sent.map message) →
        (Progress.mk (request::later) acked refused.isSome).read msg =
          ⟨request::later,acked',refused'.isSome⟩ →
        waited h ended refused later.length ((msg::sent).map message) =
          ((Progress.mk (request::later) acked refused.isSome).after (msg::sent)).map
            (List.map message) := by
      intro refused' acked' hr hp
      rw [map_cons,waited,hr,Progress.after,hp]
      exact ih refused'
    by_cases hms : msg = listenComplete
    · subst hms
      refine hs refused (request.toList++acked) ?_ (by simp [Progress.read])
      rw [message_listenComplete,readUntilReady]
    cases hm : message msg with
    | authentication code =>
      by_cases hc : code = 0
      · exact hs refused acked (by simp [hm,readUntilReady,hc])
          (by simp [Progress.read,hms,hm,hc])
      · simp [waited,hm,readUntilReady,hc,Progress.after,Progress.read,hms,Progress.restored,
          Progress.after_over]
    | errorResponse sqlstate =>
      exact hs _ acked (by rw [hm,readUntilReady]) (by simp [Progress.read,hms,hm])
    | readyForQuery status =>
      cases refused with
      | some sqlstate =>
        simp [waited,hm,readUntilReady,Progress.after,Progress.read,hms,Progress.restored,
          Progress.after_over]
      | none =>
        cases later with
        | nil =>
          simp [waited,hm,readUntilReady,Progress.after,Progress.read,hms,Progress.restored,
            Handler.waitForEach,Except.toOption]
        | cons request' later =>
          have hp : (Progress.mk (request::request'::later) acked false).read msg =
              ⟨request'::later,acked,false⟩ := by simp [Progress.read,hms,hm]
          simp only [map_cons,waited,hm,readUntilReady,Option.elim,length_cons,
            waitForEach_succ,Progress.after,Option.isSome_none,hp]
          exact ih none
    | _ => exact hs refused acked (by rw [hm,readUntilReady]) (by simp [Progress.read,hms,hm])

theorem forward_front (pending : List Bytes) (reads : List Arrival) :
    forward pending reads <+: pending++reads.flatMap Arrival.messages := by
  induction reads generalizing pending with
  | nil => simp [forward]
  | cons a later ih =>
    rw [forward,flatMap_cons,← append_assoc]
    split_ifs
    · exact nil_prefix
    · exact (prefix_append_right_inj _).2 (ih [])

theorem all_drop_iff {α : Type} (t : α → Bool) (l : List α) (n : ℕ) :
    ((l.drop n).all fun x => !t x) ↔
      ∀ earlier x later, l = earlier++x::later → t x → earlier.length < n := by
  simp only [all_eq_true,Bool.not_eq_true']
  constructor
  · rintro h earlier x later rfl hx
    by_contra hn
    have hm : x ∈ (earlier++x::later).drop n := by
      rw [drop_append_of_le_length (not_lt.1 hn)]
      simp
    simp [h x hm] at hx
  · intro h x hm
    obtain ⟨front,later,hd⟩ := append_of_mem hm
    by_contra hx
    have hl := h (l.take n++front) x later (by rw [append_assoc,← hd,take_append_drop])
      (by simpa using hx)
    have hp := congrArg List.length hd
    simp only [length_drop,length_append,length_cons,length_take] at hp hl
    omega

namespace Restore
variable (r : Restore)

theorem migrate_eq : r.handler.migrate r.target r.attempt =
    ({r.handler with backendAddr := some r.target}.waitForEach r.ended r.steps.length
      (r.sent.map message)).andThen fun h rest => (h,.ok ⟨r.sent.map message,rest⟩) := by
  have hl : r.channels.length = r.handler.state.channels.card := by
    rw [← r.tracked,toFinset_card_of_nodup r.nodup]
  have hs : r.steps.length =
      (r.handler.state.channels.card+r.handler.state.prepared.entries.length)+1 := by
    simp [steps,hl]
  simp only [hs,Handler.waitForEach,andThen_assoc,Handler.migrate,attempt]
  refine andThen_congr fun rest₁ hre => ?_
  rw [waitForReady_fst hre,waitForEach_add,andThen_assoc]
  refine andThen_congr fun rest₂ hr => ?_
  dsimp only [Handler.restoreListenSubscriptions] at hr ⊢
  rw [waitForEach_fst hr]
  rfl

theorem migrate_toOption : (r.handler.migrate r.target r.attempt).2.toOption =
    (r.start.after r.sent).map fun rest => ⟨r.sent.map message,rest.map message⟩ := by
  have hw := @waited_eq_after {r.handler with backendAddr := some r.target} r.ended none
    (r.channels.map some++List.replicate r.handler.state.prepared.entries.length none) [] none r.sent
  rw [← waitForEach_succ] at hw
  rw [migrate_eq,andThen_toOption]
  change (Handler.waitForEach _ r.steps.length _ _).2.toOption = (r.start.after r.sent).map _ at hw
  rw [hw,Option.map_map]
  rfl

theorem after_sent : r.start.after r.sent =
    (r.start.resume r.arrivals).map fun q => q.1++q.2.flatMap Arrival.messages :=
  Progress.after_flatMap r.start r.arrivals

theorem delivery_eq : r.delivery = match r.start.resume r.arrivals with
    | none => (r.sent.length,[])
    | some q => (r.sent.length-(q.1++q.2.flatMap Arrival.messages).length,forward q.1 q.2) := by
  have hmi := r.migrate_toOption
  rw [after_sent] at hmi
  rw [delivery]
  cases hm : (r.handler.migrate r.target r.attempt).2 with
  | error e =>
    cases hq : r.start.resume r.arrivals with
    | none => rfl
    | some q =>
      rw [hm,hq] at hmi
      cases hmi
  | ok moved =>
    cases hq : r.start.resume r.arrivals with
    | none =>
      rw [hm,hq] at hmi
      cases hmi
    | some q =>
      rw [hm,hq] at hmi
      cases hmi
      have hl : leftover (r.sent.length-(q.1++q.2.flatMap Arrival.messages).length) r.arrivals = q :=
        Progress.leftover_resume hq
      simp only [length_map,hl]

theorem start_restored : r.start.restored = false := rfl

variable {later earlier : List Bytes}

theorem absorbed_le_iff (hq : r.start.resume r.arrivals = some q) (hs : r.sent = earlier++later) :
    r.delivery.1 ≤ earlier.length ↔ (r.progress earlier).restored := by
  have haf := r.after_sent
  rw [hq,Option.map_some] at haf
  rw [delivery_eq,hq]
  dsimp only
  rw [progress,Progress.restored_foldl r.start_restored]
  rw [hs,Progress.after_append] at haf
  rw [hs,length_append]
  cases ha : r.start.after earlier with
  | some rest =>
    rw [ha] at haf
    have hl := congrArg List.length (Option.some.inj haf)
    rw [length_append] at hl
    simp only [Option.isSome_some,iff_true]
    omega
  | none =>
    rw [ha] at haf
    obtain ⟨front,hne,hf⟩ := Progress.after_length haf
    have hp := List.length_pos_iff.2 hne
    have hl := congrArg List.length hf
    rw [length_append] at hl
    simp only [Option.isSome_none,Bool.false_eq_true,iff_false]
    omega

theorem not_restored (hq : r.start.resume r.arrivals = none) (hs : r.sent = earlier++later) :
    (r.progress earlier).restored = false := by
  have haf := r.after_sent
  rw [hq,Option.map_none] at haf
  rw [progress,Progress.restored_foldl r.start_restored]
  rw [hs,Progress.after_append] at haf
  cases ha : r.start.after earlier with
  | some rest =>
    rw [ha] at haf
    cases haf
  | none => rfl

theorem progress_append (h : (r.progress earlier).restored) (later : List Bytes) :
    r.progress (earlier++later) = r.progress earlier := by
  rw [progress,foldl_append]
  exact Progress.foldl_read_restored h later

theorem sent_eq (hq : r.start.resume r.arrivals = some q) :
    ∃ front, front.length = r.delivery.1 ∧ r.sent = front++(q.1++q.2.flatMap Arrival.messages) := by
  have ha := r.after_sent
  rw [hq,Option.map_some] at ha
  obtain ⟨front,-,hf⟩ := Progress.after_length ha
  refine ⟨front,?_,hf⟩
  rw [delivery_eq,hq]
  dsimp only
  rw [hf,length_append]
  omega

theorem fits_iff (hq : r.start.resume r.arrivals = some q) :
    (r.progress r.sent).fits q.1 q.2 ↔
      ∀ earlier msg later, r.sent = earlier++msg::later → (r.progress earlier).restored →
        (r.progress earlier).awaits msg → earlier.length < r.delivery.1+r.delivery.2.length := by
  obtain ⟨front,hl,hf⟩ := r.sent_eq hq
  have hsho : r.delivery.2 = forward q.1 q.2 := by rw [delivery_eq,hq]
  have ho : (r.progress front).restored := (r.absorbed_le_iff hq hf).1 hl.ge
  have hp : r.progress r.sent = r.progress front := by rw [hf,r.progress_append ho]
  rw [Progress.fits_eq,all_drop_iff,hp,hsho]
  constructor
  · intro h earlier msg later hse hr ha
    have hle := (r.absorbed_le_iff hq hse).2 hr
    have hs := hf.symm.trans hse
    have hpr : front <+: earlier++msg::later := ⟨_,hs⟩
    obtain ⟨e,rfl⟩ := prefix_of_prefix_length_le hpr (prefix_append ..) (hl.trans_le hle)
    rw [append_assoc,append_cancel_left_eq] at hs
    rw [r.progress_append ho] at ha
    have hsh := h e msg later hs ha
    rw [length_append]
    omega
  · intro h e msg later hre ha
    have hsh := h (front++e) msg later (by rw [hf,hre,append_assoc])
      (by rw [r.progress_append ho,ho]) (by rw [r.progress_append ho,ha])
    rw [length_append] at hsh
    omega

end Restore

/-- A restored session's client is sent a run of the new backend's messages, in their order; every
notification on a channel whose LISTEN was acknowledged is among them exactly when it comes after the
ReadyForQuery that completes the restore, in a buffer that is read again and is not too long. -/
theorem losesNone_iff (r : Restore) :
    r.delivery.2 <+: r.sent.drop r.delivery.1 ∧ (r.LosesNone ↔ r.Quiet) := by
  cases hq : r.start.resume r.arrivals with
  | none =>
    have hn : r.delivery = (r.sent.length,[]) := by rw [r.delivery_eq,hq]
    refine ⟨by simp [hn],fun h => ⟨fun earlier msg later hs ha => ?_,by simp [hq]⟩,
      fun h earlier msg later hs ha => ?_⟩
    · have hd := h earlier msg later hs ha
      simp only [Restore.Delivers,hn,length_nil] at hd
      omega
    · have hr := h.restored earlier msg later hs ha
      rw [r.not_restored hq hs] at hr
      cases hr
  | some q =>
    obtain ⟨front,hl,hf⟩ := r.sent_eq hq
    have hsh : r.delivery.2 = forward q.1 q.2 := by rw [r.delivery_eq,hq]
    refine ⟨?_,fun h => ⟨fun earlier msg later hs ha => ?_,fun q' hq' => ?_⟩,
      fun h earlier msg later hs ha => ?_⟩
    · rw [hsh,← hl,hf,drop_left]
      exact forward_front q.1 q.2
    · exact (r.absorbed_le_iff hq hs).1 (h earlier msg later hs ha).1
    · rw [hq] at hq'
      cases hq'
      exact (r.fits_iff hq).2 fun earlier msg later hs _ ha =>
        (h earlier msg later hs ha).2
    · have hre := h.restored earlier msg later hs ha
      exact ⟨(r.absorbed_le_iff hq hs).2 hre,
        (r.fits_iff hq).1 (h.fits q hq) earlier msg later hs hre ha⟩

def authenticationOk : Bytes := packet 82 [0,0,0,0]

/-- A session on two channels; the notification on the first comes before the second is restored. -/
def twoChannels : Restore where
  handler := {state := {channels := {[97],[98]}}}
  target := node 1
  channels := [[97],[98]]
  nodup := by decide
  tracked := by decide
  reads := [authenticationOk++Chunking.ready,listenComplete++Chunking.ready,notification [97] [120],
    listenComplete++Chunking.ready]
  nonempty := by decide +kernel
  valid := by decide +kernel

/-- A session on one channel; the notification comes with the answer that completes the restore, and
nothing comes after it. -/
def oneChannel : Restore where
  handler := {state := {channels := {[97]}}}
  target := node 1
  channels := [[97]]
  nodup := by decide
  tracked := by decide
  reads := [authenticationOk++Chunking.ready,listenComplete++Chunking.ready++notification [97] [120]]
  nonempty := by decide +kernel
  valid := by decide +kernel

/-- Both sessions are restored, and both notifications are lost: one is absorbed, one stays in the
buffer. -/
theorem notification_lost : [twoChannels,oneChannel].Forall fun r =>
    (r.handler.migrate r.target r.attempt).2.isOk = true ∧ ∃ earlier later,
      r.sent = earlier++notification [97] [120]::later ∧
        (r.progress earlier).awaits (notification [97] [120]) ∧ ¬r.Delivers earlier := by
  constructor
  · refine ⟨by decide +kernel,twoChannels.sent.take 4,twoChannels.sent.drop 5,by decide +kernel,
      by decide +kernel,?_⟩
    rw [Restore.Delivers]
    decide +kernel
  · refine ⟨by decide +kernel,oneChannel.sent.take 4,[],by decide +kernel,by decide +kernel,?_⟩
    rw [Restore.Delivers]
    decide +kernel

end RestoredNotifications
end PgBattery
