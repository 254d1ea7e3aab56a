import PgBattery.Word
import PgBattery.OrderedMap

/-! The postcard wire format: little-endian base-128 integers, positional records, and variants
tagged by their position. A codec carries its round trip, so every codec assembled here has one. -/
namespace PgBattery
namespace Postcard

abbrev Bytes := List U8

inductive Error
  | serializeSeqLengthUnknown
  | deserializeUnexpectedEnd
  | deserializeBadVarint
  | deserializeBadBool
  | deserializeBadOption
  | deserializeBadUtf8
  | serdeDeCustom
  deriving DecidableEq

/-- An encoder and a decoder that reads back, with the rest of the input, what was encoded. -/
structure Codec (α : Type) where
  encode : α → Except Error Bytes
  decode : Bytes → Except Error (α × Bytes)
  decode_encode : ∀ a b rest, encode a = .ok b → decode (b++rest) = .ok (a,rest)

variable {α β γ : Type}

theorem bind_eq_ok {ε : Type} {x : Except ε α} {f : α → Except ε β} {b : β} :
    x >>= f = .ok b ↔ ∃ a, x = .ok a ∧ f a = .ok b := by
  cases x <;> simp [bind,Except.bind]

theorem map_eq_ok {ε : Type} {x : Except ε α} {f : α → β} {b : β} :
    x.map f = .ok b ↔ ∃ a, x = .ok a ∧ f a = b := by
  cases x <;> simp [Except.map]

/-- Decode a value from the front of the input; what follows it is ignored. -/
def Codec.fromBytes (c : Codec α) (bytes : Bytes) : Except Error α := (c.decode bytes).map Prod.fst

variable {b : Bytes}

theorem Codec.fromBytes_encode (c : Codec α) {a : α} (h : c.encode a = .ok b) :
    c.fromBytes b = .ok a := by
  have hd := c.decode_encode a b [] h
  rw [List.append_nil] at hd
  simp [Codec.fromBytes,hd,Except.map]

/-- At most `n` groups of seven bits, the lowest first. -/
def writeVarint : ℕ → ℕ → Bytes
  | 0, _ => []
  | n+1, v => if v < 128 then [Fin.ofNat 256 v] else Fin.ofNat 256 (v%128+128)::writeVarint n (v/128)

/-- Read at most `n` groups; the last one allowed may not exceed `last`. -/
def readVarint (last : ℕ) : ℕ → Bytes → Except Error (ℕ × Bytes)
  | 0, _ => .error .deserializeBadVarint
  | _+1, [] => .error .deserializeUnexpectedEnd
  | n+1, b::rest =>
    if b.val < 128 then
      if n = 0 ∧ last < b.val then .error .deserializeBadVarint else .ok (b.val,rest)
    else (readVarint last n rest).map fun r => (b.val-128+128*r.1,r.2)

theorem readVarint_writeVarint (last n v : ℕ) (hl : last < 128) (hv : v < 128^n*(last+1))
    (rest : Bytes) : readVarint last (n+1) (writeVarint (n+1) v++rest) = .ok (v,rest) := by
  induction n generalizing v with
  | zero =>
    have hlt : v < 128 := by omega
    have hva : (Fin.ofNat 256 v).val = v := Nat.mod_eq_of_lt (by omega)
    simp only [writeVarint,if_pos hlt,List.singleton_append,readVarint,hva]
    simp
    omega
  | succ n ih =>
    by_cases hlt : v < 128
    · have hva : (Fin.ofNat 256 v).val = v := Nat.mod_eq_of_lt (by omega)
      simp only [writeVarint,if_pos hlt,List.singleton_append,readVarint,hva]
      simp
    · have hva : (Fin.ofNat 256 (v%128+128)).val = v%128+128 := Nat.mod_eq_of_lt (by omega)
      have hd : v/128 < 128^n*(last+1) := by
        rw [Nat.div_lt_iff_lt_mul (by norm_num)]
        calc v < 128^(n+1)*(last+1) := hv
          _ = 128^n*(last+1)*128 := by ring
      have hih := ih (v/128) hd
      rw [writeVarint,if_neg hlt,List.cons_append,readVarint,hva,if_neg (by omega),hih]
      have hs : v%128+128-128+128*(v/128) = v := by omega
      simp only [Except.map,hs]

/-- A word of `size` values in `n+1` groups. -/
def Codec.varint (size n last : ℕ) (hl : last < 128) (hs : size = 128^n*(last+1)) :
    Codec (Fin size) where
  encode v := .ok (writeVarint (n+1) v.val)
  decode bytes := do
    let (v,rest) ← readVarint last (n+1) bytes
    if h : v < size then .ok (⟨v,h⟩,rest) else .error .deserializeBadVarint
  decode_encode v b rest h := by
    cases h
    rw [readVarint_writeVarint last n v.val hl (hs ▸ v.isLt)]
    simp [bind,Except.bind]

def u16 : Codec U16 := .varint 65536 2 3 (by decide) (by decide)
def u32 : Codec U32 := .varint 4294967296 4 15 (by decide) (by decide)
def u64 : Codec U64 := .varint 18446744073709551616 9 1 (by decide) (by decide)

def u8 : Codec U8 where
  encode v := .ok [v]
  decode
    | [] => .error .deserializeUnexpectedEnd
    | b::rest => .ok (b,rest)
  decode_encode v b rest h := by
    cases h
    rfl

/-- Read a value of one type as another, where every value of the other is reached. -/
def Codec.imap (c : Codec α) (f : α → β) (g : β → α) (h : ∀ b, f (g b) = b) : Codec β where
  encode b := c.encode (g b)
  decode bytes := (c.decode bytes).map fun r => (f r.1,r.2)
  decode_encode b bytes rest he := by
    rw [c.decode_encode (g b) bytes rest he]
    simp [Except.map,h]

/-- Read a value and validate it. -/
def Codec.emap (c : Codec α) (f : α → Except Error β) (g : β → α) (h : ∀ b, f (g b) = .ok b) :
    Codec β where
  encode b := c.encode (g b)
  decode bytes := do
    let (a,rest) ← c.decode bytes
    let b ← f a
    .ok (b,rest)
  decode_encode b bytes rest he := by
    rw [c.decode_encode (g b) bytes rest he]
    simp [bind,Except.bind,h]

def bool : Codec Bool where
  encode v := .ok [if v then 1 else 0]
  decode
    | [] => .error .deserializeUnexpectedEnd
    | b::rest =>
      if b = 0 then .ok (false,rest)
      else if b = 1 then .ok (true,rest) else .error .deserializeBadBool
  decode_encode v b rest h := by
    cases h
    cases v <;> rfl

def unit : Codec Unit where
  encode _ := .ok []
  decode bytes := .ok ((),bytes)
  decode_encode v b rest h := by
    cases h
    rfl

def option (c : Codec α) : Codec (Option α) where
  encode
    | none => .ok [0]
    | some a => (c.encode a).map (1::·)
  decode
    | [] => .error .deserializeUnexpectedEnd
    | b::rest =>
      if b = 0 then .ok (none,rest)
      else if b = 1 then (c.decode rest).map fun r => (some r.1,r.2)
      else .error .deserializeBadOption
  decode_encode v b rest h := by
    cases v with
    | none =>
      cases h
      rfl
    | some a =>
      obtain ⟨bytes,he,rfl⟩ := map_eq_ok.1 h
      simp [c.decode_encode a bytes rest he,Except.map]

def both (x y : Except Error Bytes) : Except Error Bytes := do .ok ((← x)++(← y))

theorem both_eq_ok {x y : Except Error Bytes} :
    both x y = .ok b ↔ ∃ u v, x = .ok u ∧ y = .ok v ∧ b = u++v := by
  cases x <;> cases y <;> simp [both,bind,Except.bind,eq_comm]

def pair (c : Codec α) (d : Codec β) : Codec (α × β) where
  encode v := both (c.encode v.1) (d.encode v.2)
  decode bytes := do
    let (a,rest) ← c.decode bytes
    let (b,rest) ← d.decode rest
    .ok ((a,b),rest)
  decode_encode v b rest h := by
    obtain ⟨x,y,hc,hd,rfl⟩ := both_eq_ok.1 h
    rw [List.append_assoc,c.decode_encode v.1 x (y++rest) hc]
    simp [bind,Except.bind,d.decode_encode v.2 y rest hd]

def encodeAll (c : Codec α) : List α → Except Error Bytes
  | [] => .ok []
  | a::as => both (c.encode a) (encodeAll c as)

def decodeMany (c : Codec α) : ℕ → Bytes → Except Error (List α × Bytes)
  | 0, bytes => .ok ([],bytes)
  | n+1, bytes => do
    let (a,rest) ← c.decode bytes
    let (as,rest) ← decodeMany c n rest
    .ok (a::as,rest)

theorem decodeMany_encodeAll (c : Codec α) (as : List α) (b rest : Bytes)
    (h : encodeAll c as = .ok b) : decodeMany c as.length (b++rest) = .ok (as,rest) := by
  induction as generalizing b with
  | nil =>
    cases h
    rfl
  | cons a as ih =>
    obtain ⟨x,y,hc,hd,rfl⟩ := both_eq_ok.1 h
    rw [List.length_cons,decodeMany,List.append_assoc,c.decode_encode a x (y++rest) hc]
    simp [bind,Except.bind,ih y hd]

/-- A length, then that many elements; longer than a `usize` cannot be written. -/
def seq (c : Codec α) : Codec (List α) where
  encode as :=
    if h : as.length < 18446744073709551616 then
      both (u64.encode ⟨as.length,h⟩) (encodeAll c as)
    else .error .serializeSeqLengthUnknown
  decode bytes := do
    let (n,rest) ← u64.decode bytes
    decodeMany c n.val rest
  decode_encode as b rest h := by
    by_cases hl : as.length < 18446744073709551616
    · rw [dif_pos hl] at h
      obtain ⟨x,y,hn,hd,rfl⟩ := both_eq_ok.1 h
      rw [List.append_assoc,u64.decode_encode _ x (y++rest) hn]
      simp [bind,Except.bind,decodeMany_encodeAll c as y rest hd]
    · simp [hl] at h

/-- A fixed number of bytes, with no length. -/
def array (n : ℕ) : Codec (Vector U8 n) where
  encode v := .ok v.toList
  decode bytes :=
    if h : (bytes.take n).length = n then .ok (⟨(bytes.take n).toArray,h⟩,bytes.drop n)
    else .error .deserializeUnexpectedEnd
  decode_encode v b rest h := by
    cases h
    simp [Vector.toList]

def utf8Bytes (s : String) : Bytes := s.toByteArray.data.toList.map UInt8.toFin

def utf8String (bytes : Bytes) : Except Error String :=
  match String.fromUTF8? ⟨(bytes.map UInt8.ofFin).toArray⟩ with
  | some s => .ok s
  | none => .error .deserializeBadUtf8

theorem utf8String_utf8Bytes (s : String) : utf8String (utf8Bytes s) = .ok s := by
  have hb : (⟨((utf8Bytes s).map UInt8.ofFin).toArray⟩ : ByteArray) = s.toByteArray := by
    simp [utf8Bytes,List.map_map,Function.comp_def]
  rw [utf8String,hb,String.fromUTF8?,dif_pos s.isValidUTF8]
  rfl

def string : Codec String := (seq u8).emap utf8String utf8Bytes utf8String_utf8Bytes

/-- One variant of an enumeration: how its payload is written, and which values it covers. -/
structure Variant (α : Type) where
  payload : Type
  codec : Codec payload
  inject : payload → α
  project : α → Option payload
  inject_project : ∀ a x, project a = some x → inject x = a

def Variant.of (c : Codec β) (inject : β → α) (project : α → Option β)
    (h : ∀ a x, project a = some x → inject x = a := by intro a x h; cases a <;> cases h; rfl) :
    Variant α :=
  ⟨β,c,inject,project,h⟩

def Variant.constant [DecidableEq α] (a : α) : Variant α where
  payload := Unit
  codec := unit
  inject _ := a
  project a' := if a' = a then some () else none
  inject_project a' x h := by
    by_cases he : a' = a
    · exact he.symm
    · simp [he] at h

def encodeVariant : List (Variant α) → ℕ → α → Except Error Bytes
  | [], _, _ => .error .serdeDeCustom
  | v::vs, i, a => match v.project a with
    | some x => both (u32.encode (Fin.ofNat _ i)) (v.codec.encode x)
    | none => encodeVariant vs (i+1) a

variable {vs : List (Variant α)}

theorem encodeVariant_eq_ok {i : ℕ} {a : α} (h : encodeVariant vs i a = .ok b) :
    ∃ j v x t c, vs[j]? = some v ∧ v.project a = some x ∧ v.codec.encode x = .ok c ∧
      u32.encode (Fin.ofNat _ (i+j)) = .ok t ∧ b = t++c := by
  induction vs generalizing i with
  | nil => simp [encodeVariant] at h
  | cons v vs ih =>
    rw [encodeVariant] at h
    cases hp : v.project a with
    | some x =>
      rw [hp] at h
      obtain ⟨t,c,ht,hc,rfl⟩ := both_eq_ok.1 h
      exact ⟨0,v,x,t,c,rfl,hp,hc,ht,rfl⟩
    | none =>
      rw [hp] at h
      obtain ⟨j,w,x,t,c,hj,hx,hc,ht,rfl⟩ := ih h
      exact ⟨j+1,w,x,t,c,hj,hx,hc,by rw [← ht]; congr 2; omega,rfl⟩

def enum (vs : List (Variant α)) (hn : vs.length ≤ 4294967296) : Codec α where
  encode a := encodeVariant vs 0 a
  decode bytes := do
    let (i,rest) ← u32.decode bytes
    match vs[i.val]? with
    | some v => (v.codec.decode rest).map fun r => (v.inject r.1,r.2)
    | none => .error .serdeDeCustom
  decode_encode a b rest h := by
    obtain ⟨j,v,x,t,c,hj,hx,hc,ht,rfl⟩ := encodeVariant_eq_ok h
    have hjl : j < vs.length := (List.getElem?_eq_some_iff.1 hj).1
    have hval : (Fin.ofNat 4294967296 (0+j)).val = j := by
      rw [Nat.zero_add]
      exact Nat.mod_eq_of_lt (by omega)
    rw [List.append_assoc,u32.decode_encode _ t (c++rest) ht]
    simp only [bind,Except.bind,hval,hj,v.codec.decode_encode x c rest hc,Except.map]
    rw [v.inject_project a x hx]

/-- A map in key order; on reading, a repeated key keeps its last value. -/
def map [Ord α] [Std.TransOrd α] [Std.LawfulEqOrd α] [DecidableEq α] (c : Codec α) (d : Codec β) :
    Codec (Std.ExtTreeMap α β) :=
  (seq (pair c d)).imap (fun l => Std.ExtTreeMap.ofList l) (fun m => m.toList)
    OrderedMap.ofList_toList

def set [LinearOrder α] (c : Codec α) : Codec (Finset α) :=
  (seq c).imap List.toFinset (fun s => s.sort (· ≤ ·)) fun s => s.sort_toFinset (· ≤ ·)

def Codec.Total (c : Codec α) : Prop := ∀ a, ∃ b, c.encode a = .ok b

def Codec.Reencodes (c : Codec α) : Prop :=
  ∀ bytes a rest, c.decode bytes = .ok (a,rest) → ∃ b, c.encode a = .ok b

section Total
variable {c : Codec α} {d : Codec β}

theorem Codec.Total.reencodes (h : c.Total) : c.Reencodes := fun _ a _ _ => h a

theorem total_varint {size n last : ℕ} (hl : last < 128) (hs : size = 128^n*(last+1)) :
    (Codec.varint size n last hl hs).Total := fun _ => ⟨_,rfl⟩

theorem u16_total : u16.Total := total_varint _ _
theorem u32_total : u32.Total := total_varint _ _
theorem u64_total : u64.Total := total_varint _ _

theorem total_bool : bool.Total := fun _ => ⟨_,rfl⟩

theorem total_array (n : ℕ) : (array n).Total := fun _ => ⟨_,rfl⟩

theorem total_option (hc : c.Total) : (option c).Total := by
  intro v
  cases v with
  | none => exact ⟨_,rfl⟩
  | some a =>
    obtain ⟨b,hb⟩ := hc a
    exact ⟨1::b,by simp [option,hb,Except.map]⟩

theorem total_pair (hc : c.Total) (hd : d.Total) : (pair c d).Total := by
  intro v
  obtain ⟨x,hx⟩ := hc v.1
  obtain ⟨y,hy⟩ := hd v.2
  exact ⟨x++y,both_eq_ok.2 ⟨x,y,hx,hy,rfl⟩⟩

theorem total_imap (hc : c.Total) {f : α → β} {g : β → α} (h : ∀ b, f (g b) = b) :
    (c.imap f g h).Total := fun b => hc (g b)

theorem exists_encodeVariant (i : ℕ) {a : α} (hc : ∃ v ∈ vs, (v.project a).isSome)
    (hto : ∀ v ∈ vs, v.codec.Total) : ∃ b, encodeVariant vs i a = .ok b := by
  induction vs generalizing i with
  | nil => simp at hc
  | cons v vs ih =>
    cases hp : v.project a with
    | some x =>
      obtain ⟨b,hb⟩ := hto v List.mem_cons_self x
      obtain ⟨t,ht⟩ := u32_total (Fin.ofNat _ i)
      refine ⟨t++b,?_⟩
      simp only [encodeVariant,hp]
      exact both_eq_ok.2 ⟨t,b,ht,hb,rfl⟩
    | none =>
      simp only [encodeVariant,hp]
      refine ih (i+1) ?_ fun w hw => hto w (List.mem_cons_of_mem v hw)
      simpa [hp] using hc

theorem total_enum (hn : vs.length ≤ 4294967296) (hc : ∀ a, ∃ v ∈ vs, (v.project a).isSome)
    (ht : ∀ v ∈ vs, v.codec.Total) : (enum vs hn).Total := fun a => exists_encodeVariant 0 (hc a) ht

theorem exists_encodeAll (hc : c.Total) (as : List α) : ∃ b, encodeAll c as = .ok b := by
  induction as with
  | nil => exact ⟨[],rfl⟩
  | cons a as ih =>
    obtain ⟨x,hx⟩ := hc a
    obtain ⟨y,hy⟩ := ih
    exact ⟨x++y,both_eq_ok.2 ⟨x,y,hx,hy,rfl⟩⟩

theorem exists_encode_seq (hc : c.Total) {as : List α} (hl : as.length < 18446744073709551616) :
    ∃ b, (seq c).encode as = .ok b := by
  obtain ⟨x,hx⟩ := u64_total ⟨as.length,hl⟩
  obtain ⟨y,hy⟩ := exists_encodeAll hc as
  refine ⟨x++y,?_⟩
  simp only [seq,dif_pos hl]
  exact both_eq_ok.2 ⟨x,y,hx,hy,rfl⟩

variable {bytes rest : Bytes}

theorem length_of_decodeMany {n : ℕ} {as : List α} (h : decodeMany c n bytes = .ok (as,rest)) :
    as.length = n := by
  induction n generalizing bytes rest as with
  | zero =>
    cases h
    rfl
  | succ n ih =>
    obtain ⟨r,-,hr⟩ := bind_eq_ok.1 h
    obtain ⟨q,hm,hq⟩ := bind_eq_ok.1 hr
    cases hq
    rw [List.length_cons,ih hm]

theorem length_of_decode_seq {as : List α} (h : (seq c).decode bytes = .ok (as,rest)) :
    as.length < 18446744073709551616 := by
  obtain ⟨n,-,hm⟩ := bind_eq_ok.1 h
  rw [length_of_decodeMany hm]
  exact n.1.isLt

theorem reencodes_imap_seq (hc : c.Total) {f : List α → γ} {g : γ → List α} (h : ∀ b, f (g b) = b)
    (hle : ∀ l, (g (f l)).length ≤ l.length) : ((seq c).imap f g h).Reencodes := by
  intro bytes a rest hd
  obtain ⟨r,hl,he⟩ := map_eq_ok.1 hd
  cases he
  exact exists_encode_seq hc ((hle r.1).trans_lt (length_of_decode_seq hl))

theorem reencodes_map [Ord α] [Std.TransOrd α] [Std.LawfulEqOrd α] [DecidableEq α] (hc : c.Total)
    (hd : d.Total) : (map c d).Reencodes :=
  reencodes_imap_seq (total_pair hc hd) _ fun l => by
    rw [Std.ExtTreeMap.length_toList]
    exact Std.ExtTreeMap.size_ofList_le

theorem reencodes_set [LinearOrder α] (hc : c.Total) : (set c).Reencodes :=
  reencodes_imap_seq hc _ fun l => by
    rw [Finset.length_sort]
    exact List.toFinset_card_le l

theorem reencodes_pair (hc : c.Reencodes) (hd : d.Reencodes) : (pair c d).Reencodes := by
  intro bytes v rest h
  obtain ⟨r,hx,hr⟩ := bind_eq_ok.1 h
  obtain ⟨q,hy,hv⟩ := bind_eq_ok.1 hr
  cases hv
  obtain ⟨x,hxe⟩ := hc bytes r.1 r.2 hx
  obtain ⟨y,hye⟩ := hd r.2 q.1 q.2 hy
  exact ⟨x++y,both_eq_ok.2 ⟨x,y,hxe,hye,rfl⟩⟩

theorem reencodes_imap (hc : c.Reencodes) {f : α → γ} {g : γ → α} (h : ∀ b, f (g b) = b)
    (hi : ∀ a, g (f a) = a) : (c.imap f g h).Reencodes := by
  intro bytes v rest hd
  obtain ⟨r,hx,he⟩ := map_eq_ok.1 hd
  cases he
  simpa only [Codec.imap,hi] using hc bytes r.1 r.2 hx

theorem Codec.Reencodes.of_fromBytes (hc : c.Reencodes) {a : α} (h : c.fromBytes bytes = .ok a) :
    ∃ b, c.encode a = .ok b := by
  obtain ⟨r,hd,rfl⟩ := map_eq_ok.1 h
  exact hc bytes r.1 r.2 hd

end Total

end Postcard
end PgBattery
