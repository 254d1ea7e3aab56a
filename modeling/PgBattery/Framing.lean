import PgBattery.Postcard
import PgBattery.Delimited

/-! The framing of the Raft RPC connections: a big-endian length, a version, a type byte and a
correlation id before each body. -/
namespace PgBattery
namespace Framing
open List
open Postcard (Bytes)

inductive Error
  | protocol (message : String)
  | postcard
  | writeZero
  | io
  | connectionTimeout (addr : String)
  deriving DecidableEq

def toBeBytes : ℕ → ℕ → Bytes
  | 0, _ => []
  | n+1, v => toBeBytes n (v/256)++[Fin.ofNat 256 v]

def fromBeBytes (bytes : Bytes) : ℕ := bytes.foldl (fun acc b => acc*256+b.val) 0

@[simp] theorem length_toBeBytes (n v : ℕ) : (toBeBytes n v).length = n := by
  induction n generalizing v with
  | zero => rfl
  | succ n ih => simp [toBeBytes,ih]

theorem fromBeBytes_toBeBytes (n v : ℕ) : fromBeBytes (toBeBytes n v) = v%256^n := by
  induction n generalizing v with
  | zero => simp [toBeBytes,fromBeBytes,Nat.mod_one]
  | succ n ih =>
    have hs : fromBeBytes (toBeBytes (n+1) v) = fromBeBytes (toBeBytes n (v/256))*256+v%256 := by
      simp [toBeBytes,fromBeBytes,foldl_append]
    rw [hs,ih,pow_succ',Nat.mod_mul]
    ring

def rpcFrameVersion : U8 := 0
def maxRpcFrameLen : ℕ := 4*1024*1024

def frameOverheadAfterLen : ℕ := 1+1+8

def validateRpcFrameLen (context : String) (len : ℕ) : Except Error ℕ :=
  if len < frameOverheadAfterLen then
    .error (.protocol s!"Invalid RPC {context} frame length: {len} (minimum {frameOverheadAfterLen})")
  else if maxRpcFrameLen < len then .error (.protocol s!"RPC {context} frame too large: {len}")
  else .ok (len-frameOverheadAfterLen)

def frameVersionAccepted (version : U8) : Bool :=
  rpcFrameVersion.val-1 ≤ version.val && version.val ≤ rpcFrameVersion.val

def peekFrameHeader (buf : Bytes) : Option (U8 × U64) :=
  buf[4]?.bind fun version =>
    if 14 ≤ buf.length then some (version,Fin.ofNat _ (fromBeBytes ((buf.take 14).drop 6))) else none

def startFrame (buf : Bytes) (typeByte : U8) (corrId : U64) : Bytes :=
  buf++[0,0,0,0]++[rpcFrameVersion,typeByte]++toBeBytes 8 corrId.val

/-- Fill in the length left open at `lenPos`. -/
def finishFrame (buf : Bytes) (lenPos : ℕ) : Except Error Bytes :=
  let totalLen := buf.length-(lenPos+4)
  if 4294967296 ≤ totalLen then .error (.protocol "RPC frame length exceeds u32")
  else if buf.length < lenPos+4 then .error (.protocol "RPC frame header missing")
  else .ok (buf.take lenPos++toBeBytes 4 totalLen++buf.drop (lenPos+4))

def appendFrameBytes (buf : Bytes) (typeByte : U8) (corrId : U64) (body : Bytes) : Except Error Bytes :=
  finishFrame (startFrame buf typeByte corrId++body) buf.length

structure Frame where
  typeByte : U8
  corrId : U64
  body : Bytes
  deriving DecidableEq

/-- Split one whole frame off the front of the buffer, if there is one. -/
def takeFrame (context : String) (buf : Bytes) : Except Error (Option (Frame × Bytes)) :=
  if buf.length < 4 then .ok none
  else
    let len := fromBeBytes (buf.take 4)
    match validateRpcFrameLen context len with
    | .error e => .error e
    | .ok bodyLen =>
      if buf.length < 4+len then .ok none
      else match buf[4]? with
        | none => .error (.protocol s!"RPC {context} frame missing version byte")
        | some version =>
          if frameVersionAccepted version then
            let corrId := Fin.ofNat _ (fromBeBytes ((buf.drop 6).take 8))
            .ok (some (⟨buf.getD 5 0,corrId,(buf.drop 14).take bodyLen⟩,buf.drop (4+len)))
          else .error (.protocol
            s!"Raft RPC frame version {version.val} is not accepted (this node speaks {rpcFrameVersion.val}, window {rpcFrameVersion.val-1}..={rpcFrameVersion.val})")

def Frame.bytes (f : Frame) : Bytes :=
  toBeBytes 4 (f.body.length+frameOverheadAfterLen)++
    ([rpcFrameVersion,f.typeByte]++toBeBytes 8 f.corrId.val++f.body)

def Frame.Fits (f : Frame) : Prop := f.body.length+frameOverheadAfterLen < 4294967296

instance (f : Frame) : Decidable f.Fits := inferInstanceAs (Decidable (_ < _))

theorem appendFrameBytes_eq (buf : Bytes) (f : Frame) :
    appendFrameBytes buf f.typeByte f.corrId f.body =
      if f.Fits then .ok (buf++f.bytes) else .error (.protocol "RPC frame length exceeds u32") := by
  have hl : (startFrame buf f.typeByte f.corrId++f.body).length =
      buf.length+4+(f.body.length+frameOverheadAfterLen) := by
    simp only [startFrame,frameOverheadAfterLen,length_append,length_cons,
      length_nil,length_toBeBytes]
    omega
  have ht : buf.length+4+(f.body.length+frameOverheadAfterLen)-(buf.length+4) =
      f.body.length+frameOverheadAfterLen := by omega
  rw [appendFrameBytes,finishFrame,hl,ht]
  by_cases hf : f.Fits
  · rw [if_neg (by unfold Frame.Fits at hf; omega),if_neg (by omega),if_pos hf]
    simp [startFrame,Frame.bytes,drop_append]
  · rw [if_pos (by unfold Frame.Fits at hf; omega),if_neg hf]

section TakeFrame
variable {context : String} {f : Frame} {buf rest : Bytes}

theorem length_bytes (f : Frame) : f.bytes.length = 4+(f.body.length+frameOverheadAfterLen) := by
  simp only [Frame.bytes,frameOverheadAfterLen,length_append,length_cons,length_nil,
    length_toBeBytes]
  omega

theorem fromBeBytes_length (hf : f.Fits) :
    fromBeBytes ((f.bytes++rest).take 4) = f.body.length+frameOverheadAfterLen := by
  have ht : (f.bytes++rest).take 4 = toBeBytes 4 (f.body.length+frameOverheadAfterLen) := by
    rw [Frame.bytes,append_assoc,take_left' (length_toBeBytes _ _)]
  rw [ht,fromBeBytes_toBeBytes]
  exact Nat.mod_eq_of_lt hf

theorem getElem?_version (f : Frame) (rest : Bytes) : (f.bytes++rest)[4]? = some rpcFrameVersion := by
  simp [Frame.bytes]

theorem ofNat_corrId (c : U64) : Fin.ofNat 18446744073709551616 (fromBeBytes (toBeBytes 8 c.val)) = c := by
  rw [fromBeBytes_toBeBytes]
  apply Fin.ext
  simp only [Fin.val_ofNat]
  have hlt := c.isLt
  omega

theorem takeFrame_bytes (hf : f.Fits) : takeFrame context (f.bytes++rest) =
    if maxRpcFrameLen < f.body.length+frameOverheadAfterLen then
      .error (.protocol s!"RPC {context} frame too large: {f.body.length+frameOverheadAfterLen}")
    else .ok (some (f,rest)) := by
  have hl := length_bytes f
  rw [takeFrame,if_neg (by simp only [length_append]; omega)]
  simp only [fromBeBytes_length hf,validateRpcFrameLen,
    if_neg (by omega : ¬f.body.length+frameOverheadAfterLen < frameOverheadAfterLen)]
  by_cases hm : maxRpcFrameLen < f.body.length+frameOverheadAfterLen
  · simp only [if_pos hm]
  · have ha : ¬(f.bytes++rest).length < 4+(f.body.length+frameOverheadAfterLen) := by
      simp only [length_append]
      omega
    have ht : (f.bytes++rest).getD 5 0 = f.typeByte := by
      simp [Frame.bytes,List.getElem?_append]
    have hc : ((f.bytes++rest).drop 6).take 8 = toBeBytes 8 f.corrId.val := by
      simp [Frame.bytes,drop_append,take_append]
    have hb : ((f.bytes++rest).drop 14).take (f.body.length+frameOverheadAfterLen-frameOverheadAfterLen) =
        f.body := by
      simp [Frame.bytes,drop_append,take_append]
    have hr : (f.bytes++rest).drop (4+(f.body.length+frameOverheadAfterLen)) = rest :=
      drop_left' hl
    simp only [if_neg hm,if_neg ha,getElem?_version,ht,hc,hb,hr,ofNat_corrId]
    rfl

theorem validateRpcFrameLen_ok {len bodyLen : ℕ} (h : validateRpcFrameLen context len = .ok bodyLen) :
    len = bodyLen+frameOverheadAfterLen := by
  unfold validateRpcFrameLen at h
  split_ifs at h
  cases h
  omega

theorem takeFrame_nil : takeFrame context [] = .ok none := rfl

/-- A frame is taken exactly when all of it is there, its length is in range and its version
accepted. -/
theorem takeFrame_eq_some_iff : takeFrame context buf = .ok (some (f,rest)) ↔
    ∃ bodyLen version, validateRpcFrameLen context (fromBeBytes (buf.take 4)) = .ok bodyLen ∧
      4+(bodyLen+frameOverheadAfterLen) ≤ buf.length ∧ buf[4]? = some version ∧
      frameVersionAccepted version ∧
      ⟨buf.getD 5 0,Fin.ofNat _ (fromBeBytes ((buf.drop 6).take 8)),(buf.drop 14).take bodyLen⟩ = f ∧
      buf.drop (4+(bodyLen+frameOverheadAfterLen)) = rest := by
  rw [takeFrame]
  by_cases hf : buf.length < 4
  · simp only [if_pos hf,Except.ok.injEq,reduceCtorEq,false_iff]
    rintro ⟨bodyLen,_,_,hl,_⟩
    omega
  rw [if_neg hf]
  dsimp only
  generalize fromBeBytes (buf.take 4) = len
  cases hv : validateRpcFrameLen context len with
  | error e => simp
  | ok bodyLen =>
    cases validateRpcFrameLen_ok hv
    simp only [Except.ok.injEq]
    by_cases hs : buf.length < 4+(bodyLen+frameOverheadAfterLen)
    · simp only [if_pos hs,Except.ok.injEq,reduceCtorEq,false_iff]
      rintro ⟨_,_,rfl,hl,_⟩
      omega
    · cases hve : buf[4]? with
      | none => simp [hs]
      | some version =>
        by_cases ha : frameVersionAccepted version
        · simp [hs,ha,not_lt.1 hs]
        · simp [hs,ha]

theorem takeFrame_append (more : Bytes) (h : takeFrame context buf = .ok (some (f,rest))) :
    takeFrame context (buf++more) = .ok (some (f,rest++more)) := by
  obtain ⟨bodyLen,version,hv,hl,hve,ha,hf,hr⟩ := takeFrame_eq_some_iff.1 h
  have hfo : 14+bodyLen ≤ buf.length := by
    rw [frameOverheadAfterLen] at hl
    omega
  have hc : ((buf++more).drop 6).take 8 = (buf.drop 6).take 8 := by
    rw [drop_append_of_le_length (by omega),take_append_of_le_length]
    rw [length_drop]
    omega
  have hb : ((buf++more).drop 14).take bodyLen = (buf.drop 14).take bodyLen := by
    rw [drop_append_of_le_length (by omega),take_append_of_le_length]
    rw [length_drop]
    omega
  refine takeFrame_eq_some_iff.2 ⟨bodyLen,version,?_,?_,?_,ha,?_,?_⟩
  · rwa [take_append_of_le_length (by omega)]
  · rw [length_append]
    omega
  · rwa [List.getElem?_append_left (by omega)]
  · rw [hc,hb,getD_append _ _ _ _ (by omega),hf]
  · rw [drop_append_of_le_length hl,hr]

end TakeFrame

def frames (context : String) : Delimited Frame U8 Error where
  encode := Frame.bytes
  take := takeFrame context
  Fits := Frame.Fits
  take_encode f rest hf := by
    rw [takeFrame_bytes hf]
    split_ifs
    · exact Or.inr ⟨_,rfl⟩
    · exact Or.inl rfl
  take_append := takeFrame_append
  take_nil := takeFrame_nil

/-- Every frame a sender writes carries the version the reader accepts, so a refusal is never about
the version. -/
theorem peek_accepted (context : String) {l : List Frame} {buf more : Bytes}
    (hs : buf++more = (frames context).stream l) {version : U8} {corrId : U64}
    (hp : peekFrameHeader buf = some (version,corrId)) : frameVersionAccepted version := by
  simp only [peekFrameHeader,Option.bind_eq_some_iff,Option.ite_none_right_eq_some,
    Option.some.injEq,Prod.mk.injEq] at hp
  obtain ⟨v,hv,hl,rfl,_⟩ := hp
  cases l with
  | nil =>
    rw [(append_eq_nil_iff.1 hs).1] at hl
    simp at hl
  | cons f l =>
    have hve := getElem?_version f ((frames context).stream l)
    rw [show f.bytes++(frames context).stream l = buf++more from hs.symm,
      List.getElem?_append_left (by omega),hv] at hve
    cases hve
    rfl

end Framing
end PgBattery
