import PgBattery.Gateway

/-! A PostgreSQL backend as its protocol describes it: what it answers to each message, when it skips
to a Sync, and what it ignores in copy-in mode. -/
namespace PgBattery
namespace PgBackend
open Gateway

inductive CopyIn
  | simple | extended
  deriving DecidableEq

structure Server where
  started : Bool := false
  alive : Bool := true
  skipping : Bool := false
  copy : Option CopyIn := none
  /-- Extended messages have been read since the last Sync. -/
  unsynced : Bool := false
  tx : TransactionStatus := .idle

/-- What the backend makes of a message: nothing to say, a success, a failure, or copy-in. -/
inductive Reply
  | silent
  | ok (body : List Backend) (status : TransactionStatus)
  | failed (body : List Backend) (status : TransactionStatus)
  | copyIn (body : List Backend)

/-- Rows, completions, notices and parameters, and a copy-out, which ends by itself. -/
def inert : Backend → Bool
  | .other | .copyOutResponse => true
  | .readyForQuery _ | .parseComplete | .closeComplete | .errorResponse | .copyInResponse
  | .copyBothResponse => false

def Reply.body : Reply → List Backend
  | .silent => []
  | .ok body _ | .failed body _ | .copyIn body => body

def Server.answerReady (b : Server) : Reply → Option (Server × List Backend)
  | .ok body status => some ({b with tx := status},body++[.readyForQuery status])
  | .failed body status =>
    some ({b with tx := status},body++[.errorResponse,.readyForQuery status])
  | .silent | .copyIn _ => none

/-- The end of an extended message; after a failure all is skipped up to a Sync. -/
def Server.answerExtended (b : Server) (complete : List Backend) :
    Reply → Option (Server × List Backend)
  | .ok body status => some ({b with unsynced := true, tx := status},body++complete)
  | .failed body status =>
    some ({b with unsynced := true, skipping := true, tx := status},body++[.errorResponse])
  | .silent | .copyIn _ => none

/-- The end of copy-in mode, as the protocol that began it demands. -/
def Server.answerCopy (b : Server) (kind : CopyIn) (r : Reply) : Option (Server × List Backend) :=
  match kind with
  | .simple => {b with copy := none}.answerReady r
  | .extended => {b with copy := none}.answerExtended [] r

def Server.inCopy (b : Server) (kind : CopyIn) (m : Frontend) (r : Reply) :
    Option (Server × List Backend) :=
  match m, r with
  | .flush, .silent | .sync, .silent | .copyData, .silent => some (b,[])
  | .flush, _ | .sync, _ => none
  | .copyDone, .copyIn body => if kind = .simple then some (b,body++[.copyInResponse]) else none
  | .copyDone, r => b.answerCopy kind r
  -- a failure of the copy, a CopyFail, and any message that does not belong in copy-in mode
  | _, .failed body status => b.answerCopy kind (.failed body status)
  | _, _ => none

def Server.ready (b : Server) (m : Frontend) (r : Reply) : Option (Server × List Backend) :=
  match m with
  | .query _ => match r with
    | .copyIn body => some ({b with copy := some .simple},body++[.copyInResponse])
    | r => b.answerReady r
  | .functionCall => b.answerReady r
  | .sync => {b with unsynced := false}.answerReady r
  | .parse _ => b.answerExtended [.parseComplete] r
  | .close _ => b.answerExtended [.closeComplete] r
  | .bind | .describe => b.answerExtended [] r
  | .execute => match r with
    | .copyIn body =>
      some ({b with unsynced := true, copy := some .extended},body++[.copyInResponse])
    | r => b.answerExtended [] r
  | .flush | .copyData | .copyDone | .copyFail => match r with
    | .silent => some (b,[])
    | .ok .. | .failed .. | .copyIn _ => none
  | .password => none

def Server.serve (b : Server) (m : Frontend) (r : Reply) : Option (Server × List Backend) :=
  if !b.alive || !b.started || !r.body.all inert then none
  else match b.copy with
    | some kind => b.inCopy kind m r
    | none =>
      if b.skipping then match m, r with
        | .sync, r => {b with skipping := false, unsynced := false}.answerReady r
        | _, .silent => some (b,[])
        | _, _ => none
      else b.ready m r

theorem Server.alive_of_serve {b : Server} {m : Frontend} {r : Reply} {x : Server × List Backend}
    (h : b.serve m r = some x) : b.alive := by
  rw [Server.serve.eq_def,Option.ite_none_left_eq_some] at h
  by_contra hd
  exact h.1 (by simp [hd])

theorem Server.inCopy_cases {b b' : Server} {kind : CopyIn} {m : Frontend} {r : Reply}
    {answer : List Backend} (h : b.inCopy kind m r = some (b',answer)) :
    ((m = .flush ∨ m = .sync ∨ m = .copyData) ∧ r = .silent ∧ b' = b ∧ answer = []) ∨
      (∃ body, m = .copyDone ∧ r = .copyIn body ∧ kind = .simple ∧ b' = b ∧
        answer = body++[.copyInResponse]) ∨
      (m ≠ .sync ∧ m ≠ .flush ∧ (m = .copyDone ∨ ∃ body status, r = .failed body status) ∧
        b.answerCopy kind r = some (b',answer)) := by
  rw [Server.inCopy.eq_def] at h
  split at h
  · cases h
    exact .inl ⟨.inl rfl,rfl,rfl,rfl⟩
  · cases h
    exact .inl ⟨.inr (.inl rfl),rfl,rfl,rfl⟩
  · cases h
    exact .inl ⟨.inr (.inr rfl),rfl,rfl,rfl⟩
  · cases h
  · cases h
  · simp only [Option.ite_none_right_eq_some,Option.some.injEq,Prod.mk.injEq] at h
    obtain ⟨hk,rfl,rfl⟩ := h
    exact .inr (.inl ⟨_,rfl,rfl,hk,rfl,rfl⟩)
  · exact .inr (.inr ⟨by simp,by simp,.inl rfl,h⟩)
  · next hf hs _ => exact .inr (.inr ⟨hs,hf,.inr ⟨_,_,rfl⟩,h⟩)
  · cases h

end PgBackend
end PgBattery
