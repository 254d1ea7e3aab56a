import PgBattery.Exchange

/-! Writing a frame and reading it back: the writer fills in a length it checks against the width of
the length field, the reader takes frames off a buffer that fills up read by read. -/
namespace PgBattery
namespace FrameCodec
open List
open Postcard (Bytes)
open Framing Exchange

section Writer
variable {T : Type} (serialize : T → Except Error Bytes)

/-- `serialize` is postcard, which extends the staged bytes by those of the message. -/
def appendFrameSerialize (buf : Bytes) (rpcType : RpcType) (corrId : U64) (msg : T) :
    Except Error Bytes :=
  (serialize msg).bind fun bytes =>
    finishFrame (startFrame buf rpcType.toU8 corrId++bytes) buf.length

variable {serialize}

theorem appendFrameSerialize_ok {msg : T} {body : Bytes} (h : serialize msg = .ok body)
    (buf : Bytes) (rpcType : RpcType) (corrId : U64) :
    appendFrameSerialize serialize buf rpcType corrId msg =
      appendFrameBytes buf rpcType.toU8 corrId body := by
  rw [appendFrameSerialize,h]
  rfl

end Writer

/-- Reading off the front of a buffer. The source's readers panic on a short buffer; the length check
before them keeps them from it. -/
def getU8 : Bytes → U8 × Bytes
  | [] => (0,[])
  | b::bytes => (b,bytes)

def getU64 (bytes : Bytes) : U64 × Bytes := (Fin.ofNat _ (fromBeBytes (bytes.take 8)),bytes.drop 8)

/-- The frame in the first `total` bytes, read field by field, and what stays in the buffer. -/
def splitFrame (buf : Bytes) (total : ℕ) : Frame × Bytes :=
  let frame := (buf.take total).drop 4
  let version := getU8 frame
  let typeByte := getU8 version.2
  let corrId := getU64 typeByte.2
  (⟨typeByte.1,corrId.1,corrId.2⟩,buf.drop total)

def takeFrameIn (context : String) (buf : Bytes) : Except Error (Option Frame) × Bytes :=
  if buf.length < 4 then (.ok none,buf)
  else
    let len := fromBeBytes (buf.take 4)
    match validateRpcFrameLen context len with
    | .error e => (.error e,buf)
    | .ok _ =>
      if buf.length < 4+len then (.ok none,buf)
      else match buf[4]? with
        | none => (.error (.protocol s!"RPC {context} frame missing version byte"),buf)
        | some version =>
          if frameVersionAccepted version then
            ((.ok (some (splitFrame buf (4+len)).1)),(splitFrame buf (4+len)).2)
          else (.error (.protocol
            s!"Raft RPC frame version {version.val} is not accepted (this node speaks {rpcFrameVersion.val}, window {rpcFrameVersion.val-1}..={rpcFrameVersion.val})"),buf)

theorem getU8_drop {l : Bytes} {n : ℕ} (h : n < l.length) : getU8 (l.drop n) = (l.getD n 0,l.drop (n+1)) := by
  rw [drop_eq_getElem_cons h,getU8,getD_eq_getElem _ _ h]

theorem splitFrame_eq {buf : Bytes} {bodyLen : ℕ}
    (h : 4+(bodyLen+frameOverheadAfterLen) ≤ buf.length) :
    splitFrame buf (4+(bodyLen+frameOverheadAfterLen)) =
      (⟨buf.getD 5 0,Fin.ofNat _ (fromBeBytes ((buf.drop 6).take 8)),(buf.drop 14).take bodyLen⟩,
        buf.drop (4+(bodyLen+frameOverheadAfterLen))) := by
  have hw : (buf.take (4+(bodyLen+frameOverheadAfterLen))).length = 14+bodyLen := by
    rw [length_take,min_eq_left h,frameOverheadAfterLen]
    omega
  have ht : (buf.take (4+(bodyLen+frameOverheadAfterLen))).getD 5 0 = buf.getD 5 0 := by
    rw [getD_eq_getElem?_getD,getD_eq_getElem?_getD,
      List.getElem?_take_of_lt (by rw [frameOverheadAfterLen]; omega)]
  have hc : ((buf.take (4+(bodyLen+frameOverheadAfterLen))).drop 6).take 8 =
      (buf.drop 6).take 8 := by
    rw [drop_take,take_take,frameOverheadAfterLen]
    congr 1
    omega
  have hb : (buf.take (4+(bodyLen+frameOverheadAfterLen))).drop 14 = (buf.drop 14).take bodyLen := by
    rw [drop_take,frameOverheadAfterLen]
    congr 1
    omega
  have hv : 4 < (buf.take (4+(bodyLen+frameOverheadAfterLen))).length := by omega
  have hk : 4+1 < (buf.take (4+(bodyLen+frameOverheadAfterLen))).length := by omega
  simp only [splitFrame,getU8_drop hv,getU8_drop hk,getU64,drop_drop,ht,hc,hb]

theorem takeFrameIn_eq (context : String) (buf : Bytes) :
    takeFrameIn context buf = match takeFrame context buf with
      | .error e => (.error e,buf)
      | .ok none => (.ok none,buf)
      | .ok (some (f,rest)) => (.ok (some f),rest) := by
  rw [takeFrameIn,takeFrame]
  by_cases hf : buf.length < 4
  · simp only [if_pos hf]
  simp only [if_neg hf]
  cases hv : validateRpcFrameLen context (fromBeBytes (buf.take 4)) with
  | error e => rfl
  | ok bodyLen =>
    have hl := validateRpcFrameLen_ok hv
    by_cases hs : buf.length < 4+fromBeBytes (buf.take 4)
    · simp only [if_pos hs]
    simp only [if_neg hs]
    cases hve : buf[4]? with
    | none => rfl
    | some version =>
      by_cases ha : frameVersionAccepted version
      · rw [hl] at hs
        simp only [if_pos ha,hl,splitFrame_eq (not_lt.1 hs)]
      · simp only [if_neg ha]

theorem takeFrameIn_some_iff {context : String} {buf rest : Bytes} {f : Frame} :
    takeFrameIn context buf = (.ok (some f),rest) ↔ takeFrame context buf = .ok (some (f,rest)) := by
  rw [takeFrameIn_eq]
  cases takeFrame context buf with
  | error e => simp
  | ok r =>
    cases r with
    | none => simp
    | some taken => simp [Prod.ext_iff]

theorem toBeBytes_fromBeBytes (bytes : Bytes) : toBeBytes bytes.length (fromBeBytes bytes) = bytes := by
  induction bytes using List.reverseRecOn with
  | nil => rfl
  | append_singleton bytes b ih =>
    have hlt := b.isLt
    have hv : fromBeBytes (bytes++[b]) = fromBeBytes bytes*256+b.val := by
      simp [fromBeBytes,foldl_append]
    have hf : (fromBeBytes bytes*256+b.val)/256 = fromBeBytes bytes := by omega
    have hl : Fin.ofNat 256 (fromBeBytes bytes*256+b.val) = b := by
      apply Fin.ext
      simp only [Fin.val_ofNat]
      omega
    rw [hv,length_append,length_singleton,toBeBytes,hf,hl,ih]

theorem fromBeBytes_lt (bytes : Bytes) : fromBeBytes bytes < 256^bytes.length := by
  rw [← toBeBytes_fromBeBytes bytes,fromBeBytes_toBeBytes,toBeBytes_fromBeBytes]
  exact Nat.mod_lt _ (by positivity)

theorem eq_of_frameVersionAccepted {version : U8} (h : frameVersionAccepted version) :
    version = rpcFrameVersion := by
  apply Fin.ext
  simp only [frameVersionAccepted,Bool.and_eq_true,decide_eq_true_eq] at h
  exact Nat.le_antisymm h.2 (by rw [rpcFrameVersion]; exact Nat.zero_le _)

theorem takeFrame_eq_bytes {context : String} {buf rest : Bytes} {f : Frame}
    (h : takeFrame context buf = .ok (some (f,rest))) : buf = f.bytes++rest ∧ f.Fits := by
  obtain ⟨bodyLen,version,hv,hl,hve,ha,rfl,rfl⟩ := takeFrame_eq_some_iff.1 h
  have hd := validateRpcFrameLen_ok hv
  rw [frameOverheadAfterLen] at hl
  have hbo : ((buf.drop 14).take bodyLen).length = bodyLen := by
    rw [length_take,length_drop]
    omega
  have hfr : toBeBytes 4 (bodyLen+frameOverheadAfterLen) = buf.take 4 := by
    have hf : (buf.take 4).length = 4 := by
      rw [length_take]
      omega
    rw [← hd]
    have hb := toBeBytes_fromBeBytes (buf.take 4)
    rwa [hf] at hb
  have hc : toBeBytes 8 (Fin.ofNat 18446744073709551616 (fromBeBytes ((buf.drop 6).take 8))).val =
      (buf.drop 6).take 8 := by
    have height : ((buf.drop 6).take 8).length = 8 := by
      rw [length_take,length_drop]
      omega
    have hlt := fromBeBytes_lt ((buf.drop 6).take 8)
    rw [height] at hlt
    have hb := toBeBytes_fromBeBytes ((buf.drop 6).take 8)
    rw [height] at hb
    rwa [Fin.val_ofNat,Nat.mod_eq_of_lt (by omega)]
  have hs : buf = buf.take 4++(version::buf.getD 5 0::((buf.drop 6).take 8++
      ((buf.drop 14).take bodyLen++buf.drop (4+(bodyLen+10))))) := by
    have hfi : 5 < buf.length := by omega
    have he : 4+(bodyLen+10) = 14+bodyLen := by omega
    rw [he,← drop_drop,take_append_drop,← drop_drop (i := 8) (j := 6),
      take_append_drop,getD_eq_getElem _ _ hfi,← drop_eq_getElem_cons]
    obtain ⟨hf,rfl⟩ := List.getElem?_eq_some_iff.1 hve
    rw [← drop_eq_getElem_cons,take_append_drop]
  refine ⟨?_,?_⟩
  · rw [Frame.bytes,hbo,hfr,hc,← eq_of_frameVersionAccepted ha]
    simpa [frameOverheadAfterLen] using hs
  · rw [Frame.Fits,hbo,← hd]
    exact lt_of_lt_of_le (fromBeBytes_lt _) (Nat.pow_le_pow_right (by decide) (length_take_le _ _))

/-- Take a frame off the buffer, reading on while there is none. -/
def readFrame (context : String) (buf : Bytes) (chunks : List Bytes) :
    Except Error (Option (Frame × Bytes × List Bytes)) :=
  match takeFrameIn context buf,chunks with
  | (.error e,_),_ => .error e
  | (.ok (some f),left),_ => .ok (some (f,left,chunks))
  | (.ok none,_),[] => .ok none
  | (.ok none,buf),chunk::chunks => readFrame context (buf++chunk) chunks

section ReadFrame
variable {context : String} {f : Frame} {buf rest : Bytes}

theorem readFrame_some {left : Bytes} (h : takeFrameIn context buf = (.ok (some f),left))
    (chunks : List Bytes) : readFrame context buf chunks = .ok (some (f,left,chunks)) := by
  unfold readFrame
  rw [h]

theorem readFrame_error {e : Error} (h : takeFrameIn context buf = (.error e,rest))
    (chunks : List Bytes) : readFrame context buf chunks = .error e := by
  unfold readFrame
  rw [h]

theorem readFrame_none (h : takeFrameIn context buf = (.ok none,buf)) (chunk : Bytes)
    (chunks : List Bytes) :
    readFrame context buf (chunk::chunks) = readFrame context (buf++chunk) chunks := by
  conv_lhs => unfold readFrame
  rw [h]

theorem takeFrame_front {more : Bytes} (hf : f.Fits)
    (hm : f.body.length+frameOverheadAfterLen ≤ maxRpcFrameLen) (hs : buf++more = f.bytes++rest)
    (hsh : buf.length < f.bytes.length) : takeFrame context buf = .ok none := by
  rw [length_bytes] at hsh
  rw [takeFrame]
  by_cases hfo : buf.length < 4
  · rw [if_pos hfo]
  have hl : fromBeBytes (buf.take 4) = f.body.length+frameOverheadAfterLen := by
    rw [← @fromBeBytes_length f rest hf,← hs,take_append_of_le_length (not_lt.1 hfo)]
  simp only [if_neg hfo,hl,validateRpcFrameLen,if_neg (not_lt.2 hm),
    if_neg (by omega : ¬f.body.length+frameOverheadAfterLen < frameOverheadAfterLen),if_pos hsh]

/-- Induction on the reads still to come: as long as the buffer is shorter than the frame, the read
goes on. -/
theorem readFrame_bytes (hf : f.Fits)
    (hm : f.body.length+frameOverheadAfterLen ≤ maxRpcFrameLen) {chunks : List Bytes}
    (hs : buf++chunks.flatten = f.bytes++rest) :
    ∃ left unread, readFrame context buf chunks = .ok (some (f,left,unread)) ∧
      left++unread.flatten = rest := by
  induction chunks generalizing buf with
  | nil =>
    rw [flatten_nil,append_nil] at hs
    have ht : takeFrameIn context buf = (.ok (some f),rest) := by
      rw [takeFrameIn_some_iff,hs,takeFrame_bytes hf,if_neg (not_lt.2 hm)]
    exact ⟨rest,[],readFrame_some ht [],append_nil rest⟩
  | cons chunk chunks ih =>
    by_cases hsh : buf.length < f.bytes.length
    · have ht : takeFrameIn context buf = (.ok none,buf) := by
        rw [takeFrameIn_eq,takeFrame_front hf hm hs hsh]
      rw [readFrame_none ht]
      apply ih
      rw [append_assoc]
      exact hs
    · obtain ⟨left,rfl⟩ : ∃ left, buf = f.bytes++left :=
        prefix_of_prefix_length_le ⟨rest,rfl⟩ ⟨_,hs⟩ (not_lt.1 hsh) |>.imp fun _ h => h.symm
      have ht : takeFrameIn context (f.bytes++left) = (.ok (some f),left) := by
        rw [takeFrameIn_some_iff,takeFrame_bytes hf,if_neg (not_lt.2 hm)]
      rw [append_assoc] at hs
      exact ⟨left,chunk::chunks,readFrame_some ht _,append_cancel_left hs⟩

theorem readFrame_tooLarge (hf : f.Fits)
    (hm : maxRpcFrameLen < f.body.length+frameOverheadAfterLen) :
    readFrame context [] [f.bytes] =
      .error (.protocol s!"RPC {context} frame too large: {f.body.length+frameOverheadAfterLen}") := by
  have hr := @takeFrame_bytes context f [] hf
  rw [if_pos hm,append_nil] at hr
  have hre := takeFrameIn_eq context f.bytes
  rw [hr] at hre
  rw [readFrame_none (by rw [takeFrameIn_eq,takeFrame_nil]),nil_append,readFrame_error hre]

end ReadFrame

/-- Whatever was staged before, the frame comes after it, and a reader gets it back with the bytes that
follow it left, however the stream is cut into reads. -/
def RoundTrips (context : String) (f : Frame) (append : Bytes → Except Error Bytes) : Prop :=
  ∀ staged out, append staged = .ok out → ∃ wire, out = staged++wire ∧
    ∀ following (chunks : List Bytes), chunks.flatten = wire++following →
      ∃ left unread, readFrame context [] chunks = .ok (some (f,left,unread)) ∧
        left++unread.flatten = following

/-- A read that gives no frame leaves the buffer, and one that does leaves what comes after the bytes
the frame is written as. -/
def TakesExactly (context : String) (buf : Bytes) : Prop :=
  match takeFrameIn context buf with
  | (.error _,left) | (.ok none,left) => left = buf
  | (.ok (some f),left) => ∃ consumed, buf = consumed++left ∧
      appendFrameBytes [] f.typeByte f.corrId f.body = .ok consumed

/-- The reader's limit holds the frame, or the writer already refuses it. -/
def Transmissible (body : Bytes) : Prop :=
  body.length+frameOverheadAfterLen ≤ maxRpcFrameLen ∨
    4294967296 ≤ body.length+frameOverheadAfterLen

instance instDecidableTransmissible (body : Bytes) : Decidable (Transmissible body) :=
  inferInstanceAs (Decidable (_ ∨ _))

theorem takesExactly (context : String) (buf : Bytes) : TakesExactly context buf := by
  rw [TakesExactly,takeFrameIn_eq]
  cases ht : takeFrame context buf with
  | error e => rfl
  | ok r =>
    cases r with
    | none => rfl
    | some taken =>
      obtain ⟨hb,hf⟩ := takeFrame_eq_bytes ht
      refine ⟨taken.1.bytes,hb,?_⟩
      rw [appendFrameBytes_eq,if_pos hf,nil_append]

theorem appendFrameBytes_roundTrips_iff (context : String) (f : Frame) :
    RoundTrips context f (fun buf => appendFrameBytes buf f.typeByte f.corrId f.body) ↔
      Transmissible f.body := by
  constructor
  · intro h
    by_contra hn
    rw [Transmissible,not_or,not_le,not_le] at hn
    have hl := hn.1
    have hf : f.Fits := hn.2
    have ha := appendFrameBytes_eq [] f
    rw [if_pos hf,nil_append] at ha
    obtain ⟨wire,hw,hr⟩ := h [] _ ha
    rw [nil_append] at hw
    obtain ⟨left,unread,hok,-⟩ := hr [] [f.bytes] (by rw [hw]; simp)
    rw [readFrame_tooLarge hf hl] at hok
    cases hok
  · intro h staged out ha
    dsimp only at ha
    rw [appendFrameBytes_eq] at ha
    by_cases hf : f.Fits
    · rw [if_pos hf] at ha
      cases ha
      refine ⟨f.bytes,rfl,fun following chunks hc => ?_⟩
      have hm : f.body.length+frameOverheadAfterLen ≤ maxRpcFrameLen :=
        h.resolve_right (not_le.2 hf)
      exact readFrame_bytes hf hm (by rw [nil_append]; exact hc)
    · rw [if_neg hf] at ha
      cases ha

/-- Frames come back exactly as written as long as the reader's limit holds them or the writer refuses
them; between the two limits a frame is written that no reader takes. -/
theorem codec_roundTrips_iff {T : Type} (serialize : T → Except Error Bytes) (context : String) :
    (∀ f : Frame, RoundTrips context f (fun buf => appendFrameBytes buf f.typeByte f.corrId f.body) ↔
      Transmissible f.body) ∧
    (∀ rpcType corrId msg body, serialize msg = .ok body →
      (RoundTrips context ⟨rpcType.toU8,corrId,body⟩
        (fun buf => appendFrameSerialize serialize buf rpcType corrId msg) ↔ Transmissible body)) ∧
    ∀ buf, TakesExactly context buf := by
  refine ⟨appendFrameBytes_roundTrips_iff context,fun rpcType corrId msg body hb => ?_,
    takesExactly context⟩
  have hs : (fun buf => appendFrameSerialize serialize buf rpcType corrId msg) =
      fun buf => appendFrameBytes buf rpcType.toU8 corrId body := by
    funext buf
    exact appendFrameSerialize_ok hb buf rpcType corrId
  rw [hs]
  exact appendFrameBytes_roundTrips_iff context ⟨rpcType.toU8,corrId,body⟩

theorem ballot_roundTrips :
    (fun ballot : U8 => (.ok [ballot] : Except Error Bytes)) 9 = .ok [9] ∧
    RoundTrips "request" ⟨RpcType.vote.toU8,7,[9]⟩
      (fun buf => appendFrameSerialize (fun ballot : U8 => .ok [ballot]) buf .vote 7 9) :=
  ⟨rfl,((codec_roundTrips_iff (fun ballot : U8 => .ok [ballot]) "request").2.1 .vote 7 9 [9] rfl).2
    (by decide)⟩

theorem written_refused {f : Frame} (hl : f.body.length+frameOverheadAfterLen = 4194305) :
    appendFrameBytes [] f.typeByte f.corrId f.body = .ok f.bytes ∧
    readFrame "request" [] [f.bytes] = .error (.protocol "RPC request frame too large: 4194305") := by
  have hf : f.Fits := by
    rw [Frame.Fits,hl]
    decide
  have hr := @readFrame_tooLarge "request" f hf (by rw [hl]; decide)
  rw [hl] at hr
  constructor
  · rw [appendFrameBytes_eq,if_pos hf,nil_append]
  · exact hr

def oversized : Frame := ⟨RpcType.installSnapshot.toU8,7,List.replicate (maxRpcFrameLen-9) 0⟩

theorem oversized_written_never_read :
    appendFrameBytes [] oversized.typeByte oversized.corrId oversized.body = .ok oversized.bytes ∧
    readFrame "request" [] [oversized.bytes] =
      .error (.protocol "RPC request frame too large: 4194305") := by
  have hl : oversized.body.length+frameOverheadAfterLen = 4194305 := by
    have hb : oversized.body.length = maxRpcFrameLen-9 := length_replicate
    rw [hb]
    rfl
  exact written_refused hl

end FrameCodec
end PgBattery
