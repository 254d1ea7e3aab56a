import PgBattery.Framing
import PgBattery.PostcardTidy

/-! The messages of the client and backend streams: a type byte, a big-endian length that counts
itself, and a body. -/
namespace PgBattery
namespace Packets
open Postcard Framing List

structure PacketHeader where
  msgType : U8
  length : ℕ

def PacketHeader.parse : Bytes → Option PacketHeader
  | t::a::b::c::d::_ => some ⟨t,fromBeBytes [a,b,c,d]⟩
  | _ => none

def PacketHeader.totalLength (h : PacketHeader) : ℕ := 1+h.length

def PacketHeader.isLengthValid (h : PacketHeader) (maxSize : ℕ) : Bool :=
  4 ≤ h.length && h.length ≤ maxSize-1

/-- Split one whole message off the front of the buffer; the error is a length out of range. -/
def split (maxSize : ℕ) (buf : Bytes) : Except ℕ (Option (Bytes × Bytes)) :=
  match PacketHeader.parse buf with
  | none => .ok none
  | some header =>
    if header.isLengthValid maxSize then
      if buf.length < header.totalLength then .ok none
      else .ok (some (buf.take header.totalLength,buf.drop header.totalLength))
    else .error header.length

def packet (msgType : U8) (body : Bytes) : Bytes := msgType::(toBeBytes 4 (body.length+4)++body)

section Split
variable {maxSize : ℕ} {buf rest more : Bytes} {msg : Bytes}

theorem parse_append {h : PacketHeader} (hp : PacketHeader.parse buf = some h) (more : Bytes) :
    PacketHeader.parse (buf++more) = some h := by
  match buf,hp with
  | _::_::_::_::_::_,hp => exact hp

theorem split_eq_some_iff : split maxSize buf = .ok (some (msg,rest)) ↔
    ∃ h, PacketHeader.parse buf = some h ∧ h.isLengthValid maxSize ∧ h.totalLength ≤ buf.length ∧
      buf.take h.totalLength = msg ∧ buf.drop h.totalLength = rest := by
  rw [split]
  cases hp : PacketHeader.parse buf with
  | none => simp
  | some h =>
    by_cases hv : h.isLengthValid maxSize
    · by_cases hl : buf.length < h.totalLength
      · simp [hv,hl,not_le.2 hl]
      · simp [hv,hl,not_lt.1 hl]
    · simp [hv]

theorem split_append (h : split maxSize buf = .ok (some (msg,rest))) (more : Bytes) :
    split maxSize (buf++more) = .ok (some (msg,rest++more)) := by
  obtain ⟨header,hp,hv,hl,hm,hr⟩ := split_eq_some_iff.1 h
  refine split_eq_some_iff.2 ⟨header,parse_append hp more,hv,?_,?_,?_⟩
  · rw [length_append]
    omega
  · rw [take_append_of_le_length hl,hm]
  · rw [drop_append_of_le_length hl,hr]

theorem split_append_error {length : ℕ} (h : split maxSize buf = .error length) (more : Bytes) :
    split maxSize (buf++more) = .error length := by
  rw [split] at h ⊢
  cases hp : PacketHeader.parse buf with
  | none => simp [hp] at h
  | some header =>
    rw [parse_append hp more]
    rw [hp] at h
    by_cases hv : header.isLengthValid maxSize
    · simp only [hv,if_true] at h
      split at h <;> cases h
    · simpa [hv] using h

theorem length_of_split (h : split maxSize buf = .ok (some (msg,rest))) :
    rest.length < buf.length := by
  obtain ⟨header,-,-,hl,-,rfl⟩ := split_eq_some_iff.1 h
  rw [length_drop]
  unfold PacketHeader.totalLength at hl ⊢
  omega

theorem parse_take {h : PacketHeader} {n : ℕ} (hp : PacketHeader.parse buf = some h) (hn : 5 ≤ n) :
    PacketHeader.parse (buf.take n) = some h := by
  match buf,n,hp,hn with
  | _::_::_::_::_::_,n+5,hp,_ => exact hp

theorem split_self (h : split maxSize buf = .ok (some (msg,rest))) :
    split maxSize msg = .ok (some (msg,[])) := by
  obtain ⟨header,hp,hv,hl,rfl,-⟩ := split_eq_some_iff.1 h
  have hf : 5 ≤ header.totalLength := by
    simp only [PacketHeader.isLengthValid,Bool.and_eq_true,decide_eq_true_eq] at hv
    rw [PacketHeader.totalLength]
    omega
  refine split_eq_some_iff.2 ⟨header,parse_take hp hf,hv,?_,?_,?_⟩
  · rw [length_take]
    omega
  · rw [take_take,min_self]
  · rw [drop_eq_nil_iff,length_take]
    omega

theorem split_nil : split maxSize [] = .ok none := rfl

theorem ne_nil_of_split (h : split maxSize buf = .ok (some (msg,rest))) : msg ≠ [] := by
  rintro rfl
  have hs := split_self h
  rw [split_nil] at hs
  cases hs

theorem parse_packet (msgType : U8) {body : Bytes} (hb : body.length+4 < 4294967296) :
    PacketHeader.parse (packet msgType body) = some ⟨msgType,body.length+4⟩ := by
  have hl := length_toBeBytes 4 (body.length+4)
  have hv : fromBeBytes (toBeBytes 4 (body.length+4)) = body.length+4 := by
    rw [fromBeBytes_toBeBytes]
    exact Nat.mod_eq_of_lt hb
  rw [packet]
  match toBeBytes 4 (body.length+4),hl,hv with
  | [a,b,c,d],_,hv => simp [PacketHeader.parse,hv]

theorem split_packet (msgType : U8) {body : Bytes} (hb : body.length+4 < 4294967296)
    (hm : body.length+4 ≤ maxSize-1) (rest : Bytes) :
    split maxSize (packet msgType body++rest) = .ok (some (packet msgType body,rest)) := by
  have ht : (PacketHeader.mk msgType (body.length+4)).totalLength = (packet msgType body).length := by
    simp only [PacketHeader.totalLength,packet,length_cons,length_append,length_toBeBytes]
    omega
  refine split_eq_some_iff.2 ⟨_,parse_append (parse_packet msgType hb) rest,?_,?_,?_,?_⟩
  · simp only [PacketHeader.isLengthValid,Bool.and_eq_true,decide_eq_true_eq]
    omega
  · rw [ht,length_append]
    omega
  · rw [ht,take_left]
  · rw [ht,drop_left]

theorem split_mono {maxSize' : ℕ} (hm : maxSize ≤ maxSize') {o : Option (Bytes × Bytes)}
    (h : split maxSize buf = .ok o) : split maxSize' buf = .ok o := by
  rw [split] at h ⊢
  cases hp : PacketHeader.parse buf with
  | none => simpa [hp] using h
  | some header =>
    rw [hp] at h
    by_cases hv : header.isLengthValid maxSize
    · have hv' : header.isLengthValid maxSize' := by
        simp only [PacketHeader.isLengthValid,Bool.and_eq_true,decide_eq_true_eq] at hv ⊢
        omega
      simpa [hv,hv'] using h
    · simp [hv] at h

end Split

def drain (maxSize : ℕ) : ℕ → Bytes → Except ℕ (List Bytes × Bytes)
  | 0, buf => .ok ([],buf)
  | n+1, buf => match split maxSize buf with
    | .ok (some (msg,rest)) => (drain maxSize n rest).map fun r => (msg::r.1,r.2)
    | .ok none => .ok ([],buf)
    | .error length => .error length

def framed (maxSize : ℕ) (buf : Bytes) : Except ℕ (List Bytes × Bytes) := drain maxSize buf.length buf

inductive Drains (maxSize : ℕ) : Bytes → List Bytes → Bytes → Prop
  | stop {buf : Bytes} (h : split maxSize buf = .ok none) : Drains maxSize buf [] buf
  | more {buf rest last : Bytes} {msg : Bytes} {l : List Bytes}
      (h : split maxSize buf = .ok (some (msg,rest))) (hd : Drains maxSize rest l last) :
      Drains maxSize buf (msg::l) last

section Drains
variable {maxSize : ℕ} {buf rest : Bytes} {l : List Bytes}

theorem drain_eq_ok_iff {n : ℕ} (hn : buf.length ≤ n) :
    drain maxSize n buf = .ok (l,rest) ↔ Drains maxSize buf l rest := by
  induction n generalizing buf l with
  | zero =>
    obtain rfl := List.length_eq_zero_iff.1 (Nat.le_zero.1 hn)
    constructor
    · intro h
      cases h
      exact .stop split_nil
    · intro h
      cases h with
      | stop h => rfl
      | more h hd =>
        rw [split_nil] at h
        cases h
  | succ n ih =>
    rw [drain]
    cases hs : split maxSize buf with
    | error e =>
      refine iff_of_false (by simp) fun h => ?_
      cases h with
      | stop h => simp [hs] at h
      | more h hd => simp [hs] at h
    | ok o =>
      cases o with
      | none =>
        constructor
        · intro h
          cases h
          exact .stop hs
        · intro h
          cases h with
          | stop h => rfl
          | more h hd => simp [hs] at h
      | some r =>
        have hl := length_of_split hs
        dsimp only
        rw [map_eq_ok]
        constructor
        · rintro ⟨q,hq,he⟩
          cases he
          exact .more hs ((ih (by omega)).1 hq)
        · intro h
          cases h with
          | stop h => simp [hs] at h
          | more h hd =>
            rw [hs] at h
            cases h
            exact ⟨_,(ih (by omega)).2 hd,rfl⟩

theorem framed_eq_ok_iff : framed maxSize buf = .ok (l,rest) ↔ Drains maxSize buf l rest :=
  drain_eq_ok_iff le_rfl

theorem Drains.mono {maxSize' : ℕ} (hm : maxSize ≤ maxSize') (h : Drains maxSize buf l rest) :
    Drains maxSize' buf l rest := by
  induction h with
  | stop hs => exact .stop (split_mono hm hs)
  | more hs hd ih => exact .more (split_mono hm hs) ih

theorem Drains.unique {l' : List Bytes} {rest' : Bytes} (h : Drains maxSize buf l rest)
    (h' : Drains maxSize buf l' rest') : l = l' ∧ rest = rest' := by
  have he := framed_eq_ok_iff.2 h
  rw [framed_eq_ok_iff.2 h'] at he
  cases he
  exact ⟨rfl,rfl⟩

/-- A buffer that is drained holds no whole message. -/
theorem Drains.stopped (h : Drains maxSize buf l rest) : split maxSize rest = .ok none := by
  induction h with
  | stop hs => exact hs
  | more hs hd ih => exact ih

/-- A part of a valid stream is drained as the stream is. -/
theorem Drains.cut {more : Bytes} (h : Drains maxSize (buf++more) l rest) :
    ∃ l₁ l₂ rest₁, Drains maxSize buf l₁ rest₁ ∧ Drains maxSize (rest₁++more) l₂ rest ∧
      l = l₁++l₂ := by
  induction hn : buf.length using Nat.strong_induction_on generalizing buf l with
  | _ n ih =>
    cases hs : split maxSize buf with
    | error e =>
      have he := split_append_error hs more
      cases h with
      | stop hs' => simp [he] at hs'
      | more hs' hd => simp [he] at hs'
    | ok o =>
      cases o with
      | none => exact ⟨[],l,buf,.stop hs,h,rfl⟩
      | some r =>
        have hl := length_of_split hs
        have hm := split_append hs more
        cases h with
        | stop hs' => simp [hm] at hs'
        | more hs' hd =>
          rw [hm] at hs'
          cases hs'
          obtain ⟨l₁,l₂,rest₁,h₁,h₂,rfl⟩ := ih r.2.length (by omega) hd rfl
          exact ⟨r.1::l₁,l₂,rest₁,.more hs h₁,h₂,rfl⟩

end Drains

end Packets
end PgBattery
