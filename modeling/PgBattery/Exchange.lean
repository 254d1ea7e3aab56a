import PgBattery.Framing
import PgBattery.TransitionSystem

/-! One pooled RPC connection: exchanges that may be dropped at any await, the bytes on their way in
both directions, and the server that answers them. -/
namespace PgBattery
namespace Exchange
open List
open Postcard (Bytes)
open Framing TransitionSystem

inductive RpcType
  | appendEntries | appendEntriesResponse | vote | voteResponse
  | installSnapshot | installSnapshotResponse | versionNotAccepted
  deriving DecidableEq

variable {t expected : RpcType}

namespace RpcType

def toU8 : RpcType → U8
  | appendEntries => 1
  | appendEntriesResponse => 2
  | vote => 3
  | voteResponse => 4
  | installSnapshot => 5
  | installSnapshotResponse => 6
  | versionNotAccepted => 7

def tryFrom (value : U8) : Except Error RpcType :=
  match value.val with
  | 1 => .ok appendEntries
  | 2 => .ok appendEntriesResponse
  | 3 => .ok vote
  | 4 => .ok voteResponse
  | 5 => .ok installSnapshot
  | 6 => .ok installSnapshotResponse
  | 7 => .ok versionNotAccepted
  | other => .error (.protocol s!"Invalid RPC type: {other}")

def debug : RpcType → String
  | appendEntries => "AppendEntries"
  | appendEntriesResponse => "AppendEntriesResponse"
  | vote => "Vote"
  | voteResponse => "VoteResponse"
  | installSnapshot => "InstallSnapshot"
  | installSnapshotResponse => "InstallSnapshotResponse"
  | versionNotAccepted => "VersionNotAccepted"

/-- The one response type a request has. -/
def response : RpcType → Option RpcType
  | appendEntries => some appendEntriesResponse
  | vote => some voteResponse
  | installSnapshot => some installSnapshotResponse
  | appendEntriesResponse | voteResponse | installSnapshotResponse | versionNotAccepted => none

theorem eq_toU8_of_tryFrom {value : U8} (h : tryFrom value = .ok t) : value = t.toU8 := by
  unfold tryFrom at h
  split at h <;> cases h <;> exact Fin.ext ‹_›

@[simp] theorem tryFrom_toU8 (t : RpcType) : tryFrom t.toU8 = .ok t := by
  cases t <;> rfl

end RpcType

def maxStaleFramesPerExchange : ℕ := 64

inductive Outcome
  | ok (body : Bytes)
  | err (e : Error)
  | more (skipped : ℕ)
  deriving DecidableEq

/-- The frames that are already there, read until the response with the exchange's own id. -/
def readFrames (addr : String) (corrId : U64) (expected : RpcType) :
    ℕ → ℕ → Bytes → Bytes × Outcome
  | 0, skipped, buf => (buf,.more skipped)
  | fuel+1, skipped, buf => match takeFrame "response" buf with
    | .error e => (buf,.err e)
    | .ok none => (buf,.more skipped)
    | .ok (some (frame,rest)) =>
      let got := frame.corrId.val
      if frame.corrId < corrId then
        -- a straggler: the response to an exchange that was dropped
        if maxStaleFramesPerExchange < skipped+1 then
          (rest,.err (.protocol
            s!"RPC stream from {addr} produced more than {maxStaleFramesPerExchange} stale frames in one exchange"))
        else readFrames addr corrId expected fuel (skipped+1) rest
      else if corrId < frame.corrId then
        (rest,.err (.protocol
          s!"RPC correlation mismatch from {addr}: expected {corrId.val}, got {got} (from the future)"))
      else match RpcType.tryFrom frame.typeByte with
        | .error e => (rest,.err e)
        | .ok respType =>
          if respType = .versionNotAccepted then
            let peerSpeaks := frame.body.head?.elim "None" fun v => s!"Some({v.val})"
            (rest,.err (.protocol
              s!"{addr} refused this node's Raft RPC frame version {rpcFrameVersion.val}; it speaks {peerSpeaks}. The supported window is adjacent releases only."))
          else if respType ≠ expected then
            (rest,.err (.protocol
              s!"RPC response type mismatch from {addr}: expected {expected.debug}, got {respType.debug}"))
          else (rest,.ok frame.body)

inductive Phase
  | writing
  | reading (skipped : ℕ)
  deriving DecidableEq

structure Call where
  number : ℕ
  corrId : U64
  expected : RpcType
  phase : Phase

structure Returned where
  number : ℕ
  corrId : U64
  expected : RpcType
  body : Bytes

/-- The connection's two ends and what is between them. The client's end is `nextCorrId`, the two
staging buffers, the running exchange and the error that cleared the slot; the server's end is its
buffer and whether it still serves. The rest is what has happened so far. -/
structure Link where
  nextCorrId : U64
  readBuf : Bytes
  writeBuf : Bytes
  call : Option Call
  failed : Option Error
  toServer : Bytes
  toClient : Bytes
  serverBuf : Bytes
  serving : Bool
  received : Bytes
  requests : List Frame
  answers : List Frame
  returned : List Returned

def Link.fresh : Link := ⟨0,[],[],none,none,[],[],[],true,[],[],[],[]⟩

inductive Event
  | call (rpcType : RpcType) (msg : Option Bytes)
  | write (n : ℕ)
  | flush
  | read (n : ℕ)
  | drop
  | fail (e : Error)
  | receive (n : ℕ)
  | serve (reply : Option Bytes)
  | close

def Link.fail (s : Link) (e : Error) : Link := {s with call := none, failed := some e}

def Link.settle (s : Link) (addr : String) (c : Call) (skipped : ℕ) : Link :=
  match readFrames addr c.corrId c.expected (s.readBuf.length+1) skipped s.readBuf with
  | (rest,.ok body) =>
    {s with
      readBuf := rest
      call := none
      returned := s.returned++[⟨c.number,c.corrId,c.expected,body⟩]}
  | (rest,.err e) => {s with readBuf := rest}.fail e
  | (rest,.more skipped) => {s with readBuf := rest, call := some {c with phase := .reading skipped}}

def Link.respond (s : Link) (f : Frame) : Link :=
  match appendFrameBytes [] f.typeByte f.corrId f.body with
  | .error _ => {s with serving := false}
  | .ok bytes => {s with toClient := s.toClient++bytes, answers := s.answers++[f]}

/-- A frame the server cannot take: a version outside the window is answered before it closes. -/
def Link.refuse (s : Link) : Link :=
  match peekFrameHeader s.serverBuf with
  | none => {s with serving := false}
  | some (version,corrId) =>
    if frameVersionAccepted version then {s with serving := false}
    else {s.respond ⟨RpcType.versionNotAccepted.toU8,corrId,[rpcFrameVersion]⟩ with serving := false}

/-- The answer to a request, echoing its id; `reply` is what Raft answers. -/
def processRequest (frame : Frame) (reply : Option Bytes) : Except Error Frame := do
  let rpcType ← RpcType.tryFrom frame.typeByte
  match rpcType.response,reply with
  | none,_ => .error (.protocol s!"Unexpected request type: {rpcType.debug}")
  | some _,none => .error .io
  | some response,some body => .ok ⟨response.toU8,frame.corrId,body⟩

def act (addr : String) (s : Link) : Event → Option Link
  | .call rpcType msg =>
    if s.call.isSome ∨ s.failed.isSome then none
    else match rpcType.response with
      | none => some (s.fail (.protocol s!"not a request RPC type: {rpcType.debug}"))
      | some expected =>
        -- the id wraps, as release builds add
        let next := {s with nextCorrId := s.nextCorrId+1}
        match msg with
        | none => some ({next with writeBuf := []}.fail .postcard)
        | some body => match appendFrameBytes s.writeBuf rpcType.toU8 s.nextCorrId body with
          | .error e => some (next.fail e)
          | .ok buf => some {next with
              writeBuf := buf
              call := some ⟨s.requests.length,s.nextCorrId,expected,.writing⟩
              requests := s.requests++[⟨rpcType.toU8,s.nextCorrId,body⟩]}
  | .write n => s.call.bind fun c =>
    if c.phase ≠ .writing ∨ s.writeBuf = [] ∨ s.writeBuf.length < n then none
    else if n = 0 then some (s.fail .writeZero)
    else some {s with toServer := s.toServer++s.writeBuf.take n, writeBuf := s.writeBuf.drop n}
  | .flush => s.call.bind fun c =>
    if c.phase ≠ .writing ∨ s.writeBuf ≠ [] then none else some (s.settle addr c 0)
  | .read n => s.call.bind fun c => match c.phase with
    | .writing => none
    | .reading skipped =>
      if n = 0 then some (s.fail (.protocol s!"RPC connection to {addr} closed mid-response"))
      else if s.toClient.length < n then none
      else some (Link.settle
        {s with readBuf := s.readBuf++s.toClient.take n, toClient := s.toClient.drop n} addr c skipped)
  | .drop => if s.call.isSome then some {s with call := none} else none
  | .fail e => if s.call.isSome then some (s.fail e) else none
  | .receive n =>
    if s.serving ∧ n ≤ s.toServer.length then
      some {s with
        toServer := s.toServer.drop n
        serverBuf := s.serverBuf++s.toServer.take n
        received := s.received++s.toServer.take n}
    else none
  | .serve reply =>
    if s.serving then match takeFrame "request" s.serverBuf with
      | .ok none => none
      | .error _ => some s.refuse
      | .ok (some (frame,rest)) =>
        let s := {s with serverBuf := rest}
        match processRequest frame reply with
        | .error _ => some {s with serving := false}
        | .ok answer => some (s.respond answer)
    else none
  | .close => some {s with serving := false}

def isizeMax : ℕ := 9223372036854775807

/-- No buffer, in a process or in a socket, is larger than an allocation can be. -/
def Link.Held (s : Link) : Prop :=
  s.readBuf.length ≤ isizeMax ∧ s.writeBuf.length ≤ isizeMax ∧ s.toServer.length ≤ isizeMax ∧
    s.toClient.length ≤ isizeMax ∧ s.serverBuf.length ≤ isizeMax

instance decidableHeld : DecidablePred Link.Held := fun s => by
  unfold Link.Held
  infer_instance

def step (addr : String) (s : Link) (e : Event) : Option Link :=
  (act addr s e).filter fun s' => s'.Held

def Link.inFlight (s : Link) : ℕ :=
  (s.readBuf++s.toClient).length+s.serverBuf.length+s.toServer.length+s.writeBuf.length

theorem Link.Held.inFlight_le {s : Link} (h : s.Held) : s.inFlight ≤ 5*isizeMax := by
  obtain ⟨hr,hw,hts,htc,hsb⟩ := h
  rw [Link.inFlight,length_append]
  omega

def bytesOf (l : List Frame) : Bytes := l.flatMap Frame.bytes

@[simp] theorem bytesOf_nil : bytesOf [] = [] := rfl

@[simp] theorem bytesOf_cons (f : Frame) (l : List Frame) :
    bytesOf (f::l) = f.bytes++bytesOf l := rfl

@[simp] theorem bytesOf_append (l m : List Frame) : bytesOf (l++m) = bytesOf l++bytesOf m :=
  flatMap_append

theorem length_le_bytesOf (l : List Frame) : 14*l.length ≤ (bytesOf l).length := by
  induction l with
  | nil => exact le_rfl
  | cons f l ih =>
    rw [bytesOf_cons,length_append,length_bytes,length_cons,frameOverheadAfterLen]
    omega

/-- Response `a` answers request `q`: it echoes the id, in the request's response type. -/
def Answers (a q : Frame) : Prop :=
  a.corrId = q.corrId ∧ ∃ t response, RpcType.tryFrom q.typeByte = .ok t ∧
    t.response = some response ∧ a.typeByte = response.toU8

def Sent (requests : List Frame) (number : ℕ) (corrId : U64) (expected : RpcType) : Prop :=
  ∃ q t, requests[number]? = some q ∧ q.corrId = corrId ∧ RpcType.tryFrom q.typeByte = .ok t ∧
    t.response = some expected

theorem Sent.append {requests : List Frame} {number : ℕ} {corrId : U64}
    (h : Sent requests number corrId expected) (f : Frame) :
    Sent (requests++[f]) number corrId expected := by
  obtain ⟨q,t,hq,hr⟩ := h
  exact ⟨q,t,List.getElem?_append_left (List.getElem?_eq_some_iff.1 hq).1 ▸ hq,hr⟩

/-- The returned body is that of the answer to the returning exchange. -/
structure Matched (answers : List Frame) (r : Returned) (a : Frame) : Prop where
  answer : answers[r.number]? = some a
  corrId : a.corrId = r.corrId
  expected : a.typeByte = r.expected.toU8
  body : a.body = r.body

structure Inv (s : Link) : Prop where
  requests_fit : ∀ f ∈ s.requests, f.Fits
  answers_fit : ∀ f ∈ s.answers, f.Fits
  numbered : ∀ (k : ℕ) f, s.requests[k]? = some f → f.corrId.val = k%18446744073709551616
  answered : ∀ (j : ℕ) a, s.answers[j]? = some a → ∃ q, s.requests[j]? = some q ∧ Answers a q
  answers_le : s.answers.length ≤ s.requests.length
  sent : s.received++s.toServer <+: bytesOf s.requests
  staged : s.failed = none → s.received++s.toServer++s.writeBuf = bytesOf s.requests ∧
    s.nextCorrId.val = s.requests.length%18446744073709551616
  taken : ∃ m, s.received = bytesOf (s.requests.take m)++s.serverBuf ∧ m ≤ s.requests.length ∧
    m ≤ s.answers.length+1 ∧ (s.serving → m = s.answers.length)
  unread : s.failed = none → ∃ l, l <:+ s.answers ∧ s.readBuf++s.toClient = bytesOf l
  calling : ∀ c, s.call = some c → s.failed = none ∧ s.requests.length = c.number+1 ∧
    Sent s.requests c.number c.corrId c.expected
  matched : ∀ r ∈ s.returned, Sent s.requests r.number r.corrId r.expected ∧
    ∃ a, Matched s.answers r a

theorem inv_fresh : Inv .fresh where
  requests_fit := by simp [Link.fresh]
  answers_fit := by simp [Link.fresh]
  numbered := by simp [Link.fresh]
  answered := by simp [Link.fresh]
  answers_le := le_rfl
  sent := prefix_rfl
  staged _ := ⟨rfl,rfl⟩
  taken := ⟨0,rfl,le_rfl,Nat.zero_le _,fun _ => rfl⟩
  unread _ := ⟨[],suffix_rfl,rfl⟩
  calling := by simp [Link.fresh]
  matched := by simp [Link.fresh]

/-- Reading takes whole responses off the front, and returns the body of one with the exchange's own
id and type. -/
theorem readFrames_spec {addr : String} {corrId : U64} {fuel skipped : ℕ} {buf more rest : Bytes}
    {out : Outcome} {l : List Frame} (hl : ∀ f ∈ l, f.Fits) (hs : buf++more = bytesOf l)
    (hr : readFrames addr corrId expected fuel skipped buf = (rest,out)) :
    (∃ l', l' <:+ l ∧ rest++more = bytesOf l') ∧
      ∀ body, out = .ok body →
        ∃ a ∈ l, a.corrId = corrId ∧ a.typeByte = expected.toU8 ∧ a.body = body := by
  fun_induction readFrames addr corrId expected fuel skipped buf generalizing l
  case case1 | case2 | case3 =>
    cases hr
    exact ⟨⟨l,suffix_rfl,hs⟩,fun body hb => by cases hb⟩
  all_goals obtain ⟨l',rfl,-,hn⟩ := Delimited.take_stream (d := frames "response") hl hs (by assumption)
  case case5 ih =>
    obtain ⟨⟨m,hm,hmo⟩,hbo⟩ := ih (fun f hf => hl f (mem_cons_of_mem _ hf)) hn hr
    refine ⟨⟨m,hm.trans (suffix_cons _ _),hmo⟩,fun body hb => ?_⟩
    obtain ⟨a,ha,hre⟩ := hbo body hb
    exact ⟨a,mem_cons_of_mem _ ha,hre⟩
  all_goals cases hr
  case case10 frame hlt hgt _ hty _ he _ =>
    refine ⟨⟨l',suffix_cons _ _,hn⟩,fun body hb => ⟨frame,mem_cons_self,?_,?_,?_⟩⟩
    · exact le_antisymm (not_lt.1 hgt) (not_lt.1 hlt)
    · rw [RpcType.eq_toU8_of_tryFrom hty,not_not.1 he]
    · cases hb
      rfl
  all_goals exact ⟨⟨l',suffix_cons _ _,hn⟩,fun body hb => by cases hb⟩

section Inv
variable {s : Link}

theorem inv_fail (h : Inv s) (e : Error) : Inv (s.fail e) where
  requests_fit := h.requests_fit
  answers_fit := h.answers_fit
  numbered := h.numbered
  answered := h.answered
  answers_le := h.answers_le
  sent := h.sent
  staged hf := by cases hf
  taken := h.taken
  unread hf := by cases hf
  calling _ hc := by cases hc
  matched := h.matched

/-- The requests whose answers have not been read are in one of five buffers, so there are fewer of
them than ids. -/
theorem Inv.unread_lt (h : Inv s) (hf : s.failed = none) (hb : s.inFlight ≤ 5*isizeMax)
    {l : List Frame} (hl : l <:+ s.answers) (hr : s.readBuf++s.toClient = bytesOf l) :
    s.requests.length < s.answers.length-l.length+18446744073709551616 := by
  obtain ⟨m,hre,-,hm,-⟩ := h.taken
  have hrest : bytesOf (s.requests.drop m) = s.serverBuf++(s.toServer++s.writeBuf) := by
    have hst := (h.staged hf).1
    have hsplit : bytesOf s.requests =
        bytesOf (s.requests.take m)++bytesOf (s.requests.drop m) := by
      rw [← bytesOf_append,take_append_drop]
    rw [hre,hsplit] at hst
    simp only [append_assoc] at hst
    exact (append_cancel_left hst).symm
  have hun := length_le_bytesOf (s.requests.drop m)
  have han := length_le_bytesOf l
  have hle := hl.length_le
  rw [hrest,length_drop,length_append,length_append] at hun
  rw [← hr] at han
  rw [Link.inFlight] at hb
  unfold isizeMax at hb
  omega

/-- Of the answers that have not been read, only the exchange's own has its id. -/
theorem Inv.matched_own (h : Inv s) {c : Call} (hc : s.call = some c)
    (hb : s.inFlight ≤ 5*isizeMax) {l : List Frame} (hl : l <:+ s.answers)
    (hr : s.readBuf++s.toClient = bytesOf l) {a : Frame} (ha : a ∈ l) (hid : a.corrId = c.corrId) (ht : a.typeByte = c.expected.toU8) :
    Matched s.answers ⟨c.number,c.corrId,c.expected,a.body⟩ a := by
  obtain ⟨ho,hn,own,_,how,hoi,_⟩ := h.calling c hc
  have hlt := h.unread_lt ho hb hl hr
  obtain ⟨read,hre⟩ := hl
  obtain ⟨i,hi⟩ := mem_iff_getElem?.1 ha
  have hj : s.answers[read.length+i]? = some a := by
    rw [← hre,List.getElem?_append_right (Nat.le_add_right _ _),Nat.add_sub_cancel_left]
    exact hi
  obtain ⟨q,hq,han⟩ := h.answered _ a hj
  have hjl := (List.getElem?_eq_some_iff.1 hq).1
  have hmod : (read.length+i)%18446744073709551616 = c.number%18446744073709551616 := by
    rw [← h.numbered _ q hq,← h.numbered c.number own how,hoi,← hid,han.1]
  have hlen : s.answers.length = read.length+l.length := by rw [← hre,length_append]
  have heq : read.length+i = c.number := by omega
  exact ⟨heq ▸ hj,hid,ht,rfl⟩

theorem inv_settle {addr : String} {c : Call} {skipped : ℕ} (h : Inv s) (hc : s.call = some c)
    (hbo : s.inFlight ≤ 5*isizeMax) :
    Inv (s.settle addr c skipped) := by
  obtain ⟨ho,hl,hid⟩ := h.calling c hc
  obtain ⟨l,hs,hre⟩ := h.unread ho
  have hfi : ∀ f ∈ l, f.Fits := fun f hf => h.answers_fit f (hs.subset hf)
  rw [Link.settle]
  cases hr : readFrames addr c.corrId c.expected (s.readBuf.length+1) skipped s.readBuf with
  | mk rest out =>
    obtain ⟨⟨l',hl',hrs⟩,hb⟩ := readFrames_spec hfi hre hr
    have hi : Inv {s with readBuf := rest} :=
      {h with unread := fun _ => ⟨l',hl'.trans hs,hrs⟩}
    cases out with
    | ok body =>
      obtain ⟨a,ha,hai,hat,rfl⟩ := hb body rfl
      refine {hi with calling := fun _ hc => (by cases hc), matched := fun r hr => ?_}
      rcases mem_append.1 hr with hold | hn
      · exact h.matched r hold
      · cases mem_singleton.1 hn
        exact ⟨hid,a,h.matched_own hc hbo hs hre ha hai hat⟩
    | err e => exact inv_fail hi e
    | more skipped =>
      refine {hi with calling := fun c' hc' => ?_}
      cases hc'
      exact ⟨ho,hl,hid⟩

theorem getElem?_concat {α : Type} {l : List α} {x y : α} {i : ℕ} (h : (l++[x])[i]? = some y) :
    l[i]? = some y ∨ i = l.length ∧ x = y := by
  rcases Nat.lt_trichotomy i l.length with hlt | rfl | hgt
  · rw [List.getElem?_append_left hlt] at h
    exact .inl h
  · rw [List.getElem?_concat_length] at h
    exact .inr ⟨rfl,Option.some.inj h⟩
  · rw [List.getElem?_eq_none (by simpa using hgt)] at h
    cases h

/-- A request is staged after whatever an earlier exchange left unwritten. -/
theorem inv_request {f : Frame} (h : Inv s) (ho : s.failed = none) (hf : f.Fits)
    (hid : f.corrId = s.nextCorrId) (ht : RpcType.tryFrom f.typeByte = .ok t)
    (he : t.response = some expected) :
    Inv {s with
      nextCorrId := s.nextCorrId+1
      writeBuf := s.writeBuf++f.bytes
      call := some ⟨s.requests.length,s.nextCorrId,expected,.writing⟩
      requests := s.requests++[f]} := by
  obtain ⟨hst,hn⟩ := h.staged ho
  exact {h with
    requests_fit := forall_mem_append.2 ⟨h.requests_fit,by simpa using hf⟩
    numbered := by
      intro k g hg
      rcases getElem?_concat hg with hg | ⟨rfl,rfl⟩
      · exact h.numbered k g hg
      · rw [hid,hn]
    answered := by
      intro j b hb
      obtain ⟨q,hq,ha⟩ := h.answered j b hb
      exact ⟨q,List.getElem?_append_left (List.getElem?_eq_some_iff.1 hq).1 ▸ hq,ha⟩
    answers_le := h.answers_le.trans (by simp)
    sent := h.sent.trans (by rw [bytesOf_append]; exact prefix_append _ _)
    staged := by
      intro _
      refine ⟨?_,?_⟩
      · simp only [bytesOf_append,bytesOf_cons,bytesOf_nil,append_nil,← hst,
          append_assoc]
      · have hv : (s.nextCorrId+1).val = (s.nextCorrId.val+1)%18446744073709551616 :=
          Fin.val_add _ _
        rw [hv,hn,length_append,length_singleton,Nat.mod_add_mod]
    taken := by
      obtain ⟨m,hre,hm,hr⟩ := h.taken
      refine ⟨m,?_,hm.trans (by simp),hr⟩
      rw [take_append_of_le_length hm]
      exact hre
    calling := by
      intro c hc
      cases hc
      exact ⟨ho,by simp,f,t,by simp,hid,ht,he⟩
    matched := by
      intro r hr
      exact ⟨(h.matched r hr).1.append f,(h.matched r hr).2⟩}

theorem inv_drop (h : Inv s) : Inv {s with call := none} :=
  {h with calling := fun _ hc => by cases hc}

theorem inv_close (h : Inv s) : Inv {s with serving := false} :=
  {h with taken := by
            obtain ⟨m,hre,hm,ha,-⟩ := h.taken
            exact ⟨m,hre,hm,ha,fun hs => by cases hs⟩}

theorem inv_write (h : Inv s) (n : ℕ) (ho : s.failed = none) :
    Inv {s with toServer := s.toServer++s.writeBuf.take n, writeBuf := s.writeBuf.drop n} := by
  obtain ⟨hst,hn⟩ := h.staged ho
  have hs : s.received++(s.toServer++s.writeBuf.take n)++s.writeBuf.drop n =
      bytesOf s.requests := by
    rw [← hst]
    simp only [append_assoc,take_append_drop]
  exact {h with sent := ⟨_,hs⟩, staged := fun _ => ⟨hs,hn⟩}

theorem inv_read (h : Inv s) (n : ℕ) (ho : s.failed = none) :
    Inv {s with readBuf := s.readBuf++s.toClient.take n, toClient := s.toClient.drop n} := by
  obtain ⟨l,hl,hr⟩ := h.unread ho
  refine {h with unread := fun _ => ⟨l,hl,?_⟩}
  rw [← hr]
  simp only [append_assoc,take_append_drop]

theorem inv_receive (h : Inv s) (n : ℕ) :
    Inv {s with
      toServer := s.toServer.drop n
      serverBuf := s.serverBuf++s.toServer.take n
      received := s.received++s.toServer.take n} := by
  have hsa : s.received++s.toServer.take n++s.toServer.drop n = s.received++s.toServer := by
    simp only [append_assoc,take_append_drop]
  refine {h with sent := ?_, staged := fun hf => ?_, taken := ?_}
  · exact hsa.symm ▸ h.sent
  · obtain ⟨hst,hn⟩ := h.staged hf
    exact ⟨hsa.symm ▸ hst,hn⟩
  · obtain ⟨m,hre,hm⟩ := h.taken
    exact ⟨m,by rw [hre,append_assoc],hm⟩

theorem Inv.unserved (h : Inv s) (hs : s.serving) :
    s.received = bytesOf (s.requests.take s.answers.length)++s.serverBuf := by
  obtain ⟨m,hre,-,-,hm⟩ := h.taken
  exact hm hs ▸ hre

theorem Inv.unanswered (h : Inv s) (hs : s.serving) :
    ∃ more, s.serverBuf++more = bytesOf (s.requests.drop s.answers.length) := by
  obtain ⟨more,hm⟩ := h.sent
  refine ⟨s.toServer++more,?_⟩
  have ha : bytesOf s.requests =
      bytesOf (s.requests.take s.answers.length)++bytesOf (s.requests.drop s.answers.length) := by
    rw [← bytesOf_append,take_append_drop]
  rw [h.unserved hs,ha] at hm
  simp only [append_assoc] at hm
  exact append_cancel_left hm

/-- The server takes the first unanswered request off its buffer. -/
theorem Inv.next_request {frame : Frame} {rest : Bytes} (h : Inv s) (hs : s.serving)
    (ht : takeFrame "request" s.serverBuf = .ok (some (frame,rest))) :
    s.requests[s.answers.length]? = some frame ∧
      s.received = bytesOf (s.requests.take (s.answers.length+1))++rest := by
  obtain ⟨more,hmo⟩ := h.unanswered hs
  have hfi : ∀ f ∈ s.requests.drop s.answers.length, f.Fits :=
    fun f hf => h.requests_fit f (mem_of_mem_drop hf)
  obtain ⟨l,hl,hbu,_⟩ := Delimited.take_stream (d := frames "request") hfi hmo ht
  have hn : s.requests[s.answers.length]? = some frame := by
    rw [← List.head?_drop,hl]
    rfl
  refine ⟨hn,?_⟩
  rw [take_add_one,hn,h.unserved hs,hbu]
  simp [frames]

theorem inv_unanswered {frame : Frame} {rest : Bytes} (h : Inv s) (hs : s.serving)
    (ht : takeFrame "request" s.serverBuf = .ok (some (frame,rest))) :
    Inv {s with serverBuf := rest, serving := false} := by
  obtain ⟨hn,hre⟩ := h.next_request hs ht
  have hlt := (List.getElem?_eq_some_iff.1 hn).1
  exact {h with taken := ⟨s.answers.length+1,hre,hlt,le_rfl,fun hs => by cases hs⟩}

theorem inv_respond {frame a : Frame} {rest : Bytes} (h : Inv s) (hs : s.serving)
    (ht : takeFrame "request" s.serverBuf = .ok (some (frame,rest))) (ha : Answers a frame) :
    Inv (Link.respond {s with serverBuf := rest} a) := by
  obtain ⟨hn,hre⟩ := h.next_request hs ht
  have hlt := (List.getElem?_eq_some_iff.1 hn).1
  rw [Link.respond,appendFrameBytes_eq]
  split_ifs with haf
  swap
  · exact inv_unanswered (s := s) h hs ht
  exact {h with
    answers_fit := forall_mem_append.2 ⟨h.answers_fit,by simpa using haf⟩
    answered := by
      intro j b hb
      rcases getElem?_concat hb with hb | ⟨rfl,rfl⟩
      · exact h.answered j b hb
      · exact ⟨frame,hn,ha⟩
    answers_le := by simpa using hlt
    taken := ⟨s.answers.length+1,hre,hlt,by simp,fun _ => by simp⟩
    unread := by
      intro hf
      obtain ⟨m,⟨t,ht⟩,hre⟩ := h.unread hf
      refine ⟨m++[a],⟨t,by rw [← append_assoc,ht]⟩,?_⟩
      simp [← hre]
    matched := by
      intro r hr
      obtain ⟨hse,b,hm⟩ := h.matched r hr
      have hlt := (List.getElem?_eq_some_iff.1 hm.answer).1
      exact ⟨hse,b,{hm with answer := List.getElem?_append_left hlt ▸ hm.answer}⟩}

theorem answers_of_processRequest {frame a : Frame} {reply : Option Bytes}
    (hp : processRequest frame reply = .ok a) : Answers a frame := by
  unfold processRequest at hp
  cases ht : RpcType.tryFrom frame.typeByte with
  | error e =>
    rw [ht] at hp
    cases hp
  | ok t =>
    simp only [ht,bind,Except.bind] at hp
    split at hp <;> cases hp
    next hr => exact ⟨rfl,t,_,ht,hr,rfl⟩

theorem inv_refuse (h : Inv s) (hs : s.serving) : Inv s.refuse := by
  obtain ⟨more,hm⟩ := h.unanswered hs
  rw [Link.refuse]
  cases hp : peekFrameHeader s.serverBuf with
  | none => exact inv_close h
  | some header =>
    have ha := peek_accepted "request" hm hp
    simp only [ha,if_true]
    exact inv_close h

theorem inv_act {addr : String} {e : Event} {s' : Link} (h : Inv s) (hbo : s.inFlight ≤ 5*isizeMax)
    (hs : act addr s e = some s') : Inv s' := by
  revert hs
  fun_cases act addr s e <;> intro hs <;> try cases hs
  · exact inv_fail h _
  · have hfa := inv_fail h .postcard
    exact {hfa with staged := fun hf => (by cases hf)}
  · next e _ =>
    have hfa := inv_fail h e
    exact {hfa with staged := fun hf => (by cases hf)}
  · next rpcType hno _ hr _ body buf hb =>
    have ha := appendFrameBytes_eq s.writeBuf ⟨rpcType.toU8,s.nextCorrId,body⟩
    rw [hb] at ha
    split_ifs at ha with hfi
    cases ha
    exact inv_request h (by simpa using fun hf => hno (.inr hf)) hfi rfl (RpcType.tryFrom_toU8 _) hr
  · obtain ⟨c,hc,hs⟩ := Option.bind_eq_some_iff.1 hs
    obtain ⟨-,hs⟩ := Option.ite_none_left_eq_some.1 hs
    split_ifs at hs <;> cases hs
    · exact inv_fail h _
    · exact inv_write h _ (h.calling c hc).1
  · obtain ⟨c,hc,hs⟩ := Option.bind_eq_some_iff.1 hs
    obtain ⟨-,⟨⟩⟩ := Option.ite_none_left_eq_some.1 hs
    exact inv_settle h hc hbo
  · obtain ⟨c,hc,hs⟩ := Option.bind_eq_some_iff.1 hs
    split at hs
    · cases hs
    split_ifs at hs <;> cases hs
    · exact inv_fail h _
    · refine inv_settle (inv_read h _ (h.calling c hc).1) hc ?_
      simpa only [Link.inFlight,append_assoc,take_append_drop] using hbo
  · exact inv_drop h
  · exact inv_fail h _
  · exact inv_receive h _
  · next hse _ _ => exact inv_refuse h hse
  · next hse _ _ ht _ _ _ => exact inv_unanswered (s := s) h hse ht
  · next hse _ _ ht _ _ hp => exact inv_respond h hse ht (answers_of_processRequest hp)
  · exact inv_close h

theorem inv_step {addr : String} {e : Event} {s' : Link} (h : Inv s ∧ s.Held)
    (hs : step addr s e = some s') : Inv s' ∧ s'.Held := by
  obtain ⟨ha,hb⟩ := Option.filter_eq_some_iff.1 hs
  exact ⟨inv_act h.1 h.2.inFlight_le ha,of_decide_eq_true hb⟩

end Inv

/-- However exchanges are dropped and bytes arrive, the server has received a prefix of the whole
requests in the order of the exchanges, and each body returned is that of the response to the
exchange that returns it, with its id and in its type. -/
theorem responses_matched (addr : String) (es : List Event) (s : Link)
    (hrun : run (step addr) .fresh es = some s) :
    s.received <+: bytesOf s.requests ∧
    ∀ r ∈ s.returned, Sent s.requests r.number r.corrId r.expected ∧
      ∃ a q, s.answers[r.number]? = some a ∧ s.requests[r.number]? = some q ∧ Answers a q ∧
        a.corrId = r.corrId ∧ a.typeByte = r.expected.toU8 ∧ a.body = r.body := by
  have hf : Link.fresh.Held := by decide
  obtain ⟨hi,-⟩ := run_invariant (fun _ _ _ => inv_step) ⟨inv_fresh,hf⟩ hrun
  refine ⟨(prefix_append _ _).trans hi.sent,?_⟩
  intro r hr
  obtain ⟨hs,a,hm⟩ := hi.matched r hr
  obtain ⟨q,hq,ha⟩ := hi.answered _ a hm.answer
  exact ⟨hs,a,q,hm.answer,hq,ha,hm.corrId,hm.expected,hm.body⟩

/-- The first exchange is dropped with its request half written, the second skips its answer. -/
def torn : List Event :=
  [.call .vote (some [7]),.write 5,.drop,.call .appendEntries (some [8,9]),.receive 3,.write 26,
    .receive 12,.serve (some [1]),.receive 16,.serve (some [2]),.flush,.read 20,.read 10]

theorem responses_matched_torn :
    ∃ s, run (step "") .fresh torn = some s ∧ s.received <+: bytesOf s.requests ∧
      ∃ r ∈ s.returned, r.number = 1 ∧ r.body = [2] ∧ ∃ a, s.answers[1]? = some a ∧ a.body = r.body := by
  have hso : (run (step "") .fresh torn).any
      (fun s => s.returned.any fun r => r.number = 1 ∧ r.body = [2]) := by decide +kernel
  obtain ⟨s,hru,hs⟩ := (Option.any_eq_true _ _).1 hso
  obtain ⟨r,hr,hb⟩ := any_eq_true.1 hs
  obtain ⟨hn,hb⟩ := of_decide_eq_true hb
  obtain ⟨hre,hm⟩ := responses_matched "" torn s hru
  obtain ⟨_,a,q,ha,_,_,_,_,hab⟩ := hm r hr
  exact ⟨s,hru,hre,r,hr,hn,hb,a,hn ▸ ha,hab⟩

end Exchange
end PgBattery
