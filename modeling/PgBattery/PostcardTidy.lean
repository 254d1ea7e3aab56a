import PgBattery.Postcard

/-! When the bytes a codec read are the bytes it would have written. The readers are lenient (a
number may end in empty groups), so what they accept is wider than what the writers produce; the
difference is told by a scan of the input along the layout. -/
namespace PgBattery
namespace Postcard
open List
variable {α β : Type}

/-- A scan of the input that accepts exactly the writer's own bytes among those the codec reads. -/
structure Tidy (c : Codec α) where
  scan : Bytes → Bool
  scan_iff : ∀ {bytes a rest}, c.decode bytes = .ok (a,rest) →
    (scan bytes = true ↔ ∃ b, c.encode a = .ok b ∧ bytes = b++rest)

namespace Tidy

/-- The last of several groups is not empty. -/
def shortTail : Bytes → Bool
  | [] => true
  | b::rest => if b.val < 128 then b.val ≠ 0 else shortTail rest

def short : Bytes → Bool
  | [] => true
  | b::rest => if b.val < 128 then true else shortTail rest

variable {n v last : ℕ} {bytes rest : Bytes}

theorem writeVarint_small (h : v < 128) : writeVarint (n+1) v = [Fin.ofNat 256 v] := by
  rw [writeVarint,if_pos h]

theorem writeVarint_group {b : U8} (hb : ¬b.val < 128) (hv : v ≠ 0) :
    writeVarint (n+1) (b.val-128+128*v) = b::writeVarint n v := by
  have hlt := b.isLt
  have hm : (b.val-128+128*v)%128+128 = b.val := by omega
  have hd : (b.val-128+128*v)/128 = v := by omega
  rw [writeVarint,if_neg (by omega),hm,hd,Fin.ofNat_val_eq_self]

theorem writeVarint_end {b : U8} (hb : ¬b.val < 128) :
    b::bytes ≠ writeVarint (n+1) (b.val-128)++rest := by
  intro he
  have hlt := b.isLt
  rw [writeVarint_small (by omega),singleton_append,cons_eq_cons] at he
  have hv := congrArg Fin.val he.1
  rw [Fin.val_ofNat,Nat.mod_eq_of_lt (by omega)] at hv
  omega

theorem shortTail_iff (h : readVarint last n bytes = .ok (v,rest)) :
    shortTail bytes ↔ v ≠ 0 ∧ bytes = writeVarint n v++rest := by
  induction n generalizing bytes v with
  | zero => cases h
  | succ n ih =>
    cases bytes with
    | nil => cases h
    | cons b bytes =>
      by_cases hb : b.val < 128
      · simp only [readVarint,if_pos hb] at h
        split at h
        · cases h
        · cases h
          simp [shortTail,hb,writeVarint_small hb]
      · simp only [readVarint,if_neg hb] at h
        obtain ⟨r,hr,he⟩ := map_eq_ok.1 h
        cases he
        rw [shortTail,if_neg hb,ih hr]
        by_cases hz : r.1 = 0
        · rw [hz]
          simp [writeVarint_end hb]
        · rw [writeVarint_group hb hz]
          simp [hz]

theorem short_iff (h : readVarint last n bytes = .ok (v,rest)) :
    short bytes ↔ bytes = writeVarint n v++rest := by
  cases n with
  | zero => cases h
  | succ n =>
    cases bytes with
    | nil => cases h
    | cons b bytes =>
      by_cases hb : b.val < 128
      · simp only [readVarint,if_pos hb] at h
        split at h
        · cases h
        · cases h
          simp [short,hb,writeVarint_small hb]
      · simp only [readVarint,if_neg hb] at h
        obtain ⟨r,hr,he⟩ := map_eq_ok.1 h
        cases he
        rw [short,if_neg hb,shortTail_iff hr]
        by_cases hz : r.1 = 0
        · rw [hz]
          simp [writeVarint_end hb]
        · rw [writeVarint_group hb hz]
          simp [hz]

def varint {size n last : ℕ} (hl : last < 128) (hs : size = 128^n*(last+1)) :
    Tidy (Codec.varint size n last hl hs) where
  scan := short
  scan_iff {bytes a rest} h := by
    obtain ⟨⟨v,rest'⟩,hv,hd⟩ := bind_eq_ok.1 h
    dsimp only at hd
    split at hd
    · cases hd
      rw [short_iff hv]
      simp [Codec.varint]
    · cases hd

def u16 : Tidy Postcard.u16 := varint _ _
def u32 : Tidy Postcard.u32 := varint _ _
def u64 : Tidy Postcard.u64 := varint _ _

/-- A codec whose every reading is of the writer's bytes. -/
def always {c : Codec α}
    (h : ∀ bytes a rest, c.decode bytes = .ok (a,rest) → ∃ b, c.encode a = .ok b ∧ bytes = b++rest) :
    Tidy c :=
  ⟨fun _ => true,fun hd => iff_of_true rfl (h _ _ _ hd)⟩

def u8 : Tidy Postcard.u8 := always fun bytes a rest h => by
  cases bytes with
  | nil => cases h
  | cons b bytes =>
    cases h
    exact ⟨[a],rfl,rfl⟩

def bool : Tidy Postcard.bool := always fun bytes a rest h => by
  cases bytes with
  | nil => cases h
  | cons b bytes =>
    simp only [Postcard.bool] at h
    by_cases h0 : b = 0
    · rw [if_pos h0] at h
      cases h
      exact ⟨[0],rfl,by rw [h0]; rfl⟩
    · rw [if_neg h0] at h
      by_cases h1 : b = 1
      · rw [if_pos h1] at h
        cases h
        exact ⟨[1],rfl,by rw [h1]; rfl⟩
      · rw [if_neg h1] at h
        cases h

def unit : Tidy Postcard.unit := always fun bytes a rest h => by
  cases h
  exact ⟨[],rfl,rfl⟩

def array (n : ℕ) : Tidy (Postcard.array n) := always fun bytes a rest h => by
  simp only [Postcard.array] at h
  split at h
  · cases h
    exact ⟨_,rfl,by simp [Vector.toList]⟩
  · cases h

def option {c : Codec α} (t : Tidy c) : Tidy (Postcard.option c) where
  scan
    | [] => true
    | b::rest => if b = 1 then t.scan rest else true
  scan_iff {bytes a rest} h := by
    cases bytes with
    | nil => cases h
    | cons b bytes =>
      simp only [Postcard.option] at h ⊢
      by_cases h0 : b = 0
      · rw [if_pos h0] at h
        cases h
        simp [h0]
      · rw [if_neg h0] at h
        by_cases h1 : b = 1
        · rw [if_pos h1] at h
          obtain ⟨r,hr,he⟩ := map_eq_ok.1 h
          cases he
          rw [if_pos h1,t.scan_iff hr]
          simp [map_eq_ok,h1]
        · rw [if_neg h1] at h
          cases h

/-- Two scans one after the other, where the first reading tells where the second starts. -/
def after (c : Codec α) (scan : Bytes → Bool) (next : α → Bytes → Bool) (bytes : Bytes) : Bool :=
  scan bytes && match c.decode bytes with
    | .ok (a,rest) => next a rest
    | .error _ => true

theorem after_iff {c : Codec α} (t : Tidy c) {next : α → Bytes → Bool} {rest' : Bytes} {a : α}
    (h : c.decode bytes = .ok (a,rest)) {e : Except Error Bytes}
    (hn : next a rest ↔ ∃ b, e = .ok b ∧ rest = b++rest') :
    after c t.scan next bytes ↔ ∃ b, both (c.encode a) e = .ok b ∧ bytes = b++rest' := by
  rw [after,h,Bool.and_eq_true,t.scan_iff h,hn]
  constructor
  · rintro ⟨⟨u,hu,rfl⟩,v,hv,rfl⟩
    exact ⟨u++v,both_eq_ok.2 ⟨u,v,hu,hv,rfl⟩,(append_assoc ..).symm⟩
  · rintro ⟨b,hb,rfl⟩
    obtain ⟨u,v,hu,hv,rfl⟩ := both_eq_ok.1 hb
    rw [append_assoc,c.decode_encode a u _ hu] at h
    cases h
    exact ⟨⟨u,hu,append_assoc ..⟩,v,hv,rfl⟩

def pair {c : Codec α} {d : Codec β} (t : Tidy c) (u : Tidy d) : Tidy (Postcard.pair c d) where
  scan := after c t.scan fun _ => u.scan
  scan_iff {bytes v rest} h := by
    obtain ⟨⟨a,rest₁⟩,ha,h₁⟩ := bind_eq_ok.1 h
    obtain ⟨⟨b,rest₂⟩,hb,h₂⟩ := bind_eq_ok.1 h₁
    cases h₂
    exact after_iff t ha (u.scan_iff hb)

def many {c : Codec α} (t : Tidy c) : ℕ → Bytes → Bool
  | 0 => fun _ => true
  | n+1 => after c t.scan fun _ => many t n

theorem many_iff {c : Codec α} (t : Tidy c) {as : List α} (h : decodeMany c n bytes = .ok (as,rest))
    : many t n bytes ↔ ∃ b, encodeAll c as = .ok b ∧ bytes = b++rest := by
  induction n generalizing bytes as with
  | zero =>
    cases h
    simp [many,encodeAll]
  | succ n ih =>
    obtain ⟨⟨a,rest₁⟩,ha,h₁⟩ := bind_eq_ok.1 h
    obtain ⟨⟨as',rest₂⟩,has,h₂⟩ := bind_eq_ok.1 h₁
    cases h₂
    exact after_iff t ha (ih has)

def seq {c : Codec α} (t : Tidy c) : Tidy (Postcard.seq c) where
  scan := after Postcard.u64 u64.scan fun n => many t n.val
  scan_iff {bytes as rest} h := by
    have hl := length_of_decode_seq h
    obtain ⟨⟨n,rest₁⟩,hn,hm⟩ := bind_eq_ok.1 h
    have hlen : (⟨as.length,hl⟩ : U64) = n := Fin.ext (length_of_decodeMany hm)
    rw [after_iff u64 hn (many_iff t hm)]
    simp only [Postcard.seq,dif_pos hl,hlen]

def imap {c : Codec α} (t : Tidy c) {f : α → β} {g : β → α} (h : ∀ b, f (g b) = b)
    (hinv : ∀ a, g (f a) = a) : Tidy (c.imap f g h) where
  scan := t.scan
  scan_iff {bytes v rest} hd := by
    obtain ⟨r,hr,he⟩ := map_eq_ok.1 hd
    cases he
    rw [t.scan_iff hr]
    simp only [Codec.imap,hinv]

def emap {c : Codec α} (t : Tidy c) {f : α → Except Error β} {g : β → α} (h : ∀ b, f (g b) = .ok b)
    (hinv : ∀ a b, f a = .ok b → g b = a) : Tidy (c.emap f g h) where
  scan := t.scan
  scan_iff {bytes v rest} hd := by
    obtain ⟨⟨a,rest₁⟩,ha,h₁⟩ := bind_eq_ok.1 hd
    obtain ⟨b,hb,h₂⟩ := bind_eq_ok.1 h₁
    cases h₂
    rw [t.scan_iff ha]
    simp only [Codec.emap,hinv a v hb]

theorem utf8Bytes_utf8String {s : String} (h : utf8String bytes = .ok s) : utf8Bytes s = bytes := by
  rw [utf8String,String.fromUTF8?] at h
  split at h
  · rename_i s' hs
    split at hs
    · cases hs
      cases h
      simp [utf8Bytes,map_map,Function.comp_def,String.fromUTF8]
    · cases hs
  · cases h

def string : Tidy Postcard.string :=
  (seq u8).emap utf8String_utf8Bytes fun _ _ => utf8Bytes_utf8String

/-- An enumeration no value of which is covered by two variants. -/
def enum (ts : List ((v : Variant α) × Tidy v.codec))
    (hn : (ts.map Sigma.fst).length ≤ 4294967296)
    (hw : ∀ j v x, (ts.map Sigma.fst)[j]? = some v → encodeVariant (ts.map Sigma.fst) 0 (v.inject x) =
      both (Postcard.u32.encode (Fin.ofNat _ j)) (v.codec.encode x)) :
    Tidy (Postcard.enum (ts.map Sigma.fst) hn) where
  scan := after Postcard.u32 u32.scan fun i rest => match ts[i.val]? with
    | some t => t.2.scan rest
    | none => true
  scan_iff {bytes a rest} h := by
    obtain ⟨⟨i,rest₁⟩,hi,h₁⟩ := bind_eq_ok.1 h
    dsimp only at h₁
    cases ht : ts[i.val]? with
    | none =>
      rw [List.getElem?_map,ht] at h₁
      cases h₁
    | some t =>
      have hv : (ts.map Sigma.fst)[i.val]? = some t.1 := by rw [List.getElem?_map,ht]; rfl
      rw [hv] at h₁
      obtain ⟨r,hr,he⟩ := map_eq_ok.1 h₁
      cases he
      have hnext : (match ts[i.val]? with | some t => t.2.scan rest₁ | none => true) = true ↔
          ∃ b, t.1.codec.encode r.1 = .ok b ∧ rest₁ = b++r.2 := by
        rw [ht]
        exact t.2.scan_iff hr
      rw [after_iff u32 hi hnext]
      simp only [Postcard.enum,hw i.val t.1 r.1 hv,Fin.ofNat_val_eq_self]

end Tidy

def Codec.Reads (c : Codec β) (d : Codec α) (f : α → β) : Prop :=
  ∀ bytes, c.decode bytes = (d.decode bytes).map fun r => (f r.1,r.2)

section Reads
variable {γ δ : Type} {c : Codec β} {d : Codec α} {f : α → β}

theorem reads_self (c : Codec α) : c.Reads c id := by
  intro bytes
  cases h : c.decode bytes <;> rfl

theorem reads_imap (d : Codec α) {g : β → α} (h : ∀ b, f (g b) = b) : (d.imap f g h).Reads d f :=
  fun _ => rfl

theorem Codec.Reads.imap (hr : c.Reads d f) {k : β → γ} {l : γ → β} (h : ∀ b, k (l b) = b) :
    (c.imap k l h).Reads d (k ∘ f) := by
  intro bytes
  show (c.decode bytes).map _ = _
  rw [hr bytes]
  cases d.decode bytes <;> rfl

theorem Codec.Reads.pair {c' : Codec δ} {d' : Codec γ} {g : γ → δ} (hr : c.Reads d f)
    (hr' : c'.Reads d' g) : (pair c c').Reads (pair d d') (Prod.map f g) := by
  intro bytes
  simp only [Postcard.pair,hr bytes]
  cases h : d.decode bytes with
  | error e => rfl
  | ok r =>
    simp only [bind,Except.bind,Except.map,hr' r.2]
    cases h' : d'.decode r.2 <;> rfl

end Reads

section Whole
variable {c : Codec α} {a a' : α} {b w : Bytes}

theorem Codec.decode_whole (h : c.encode a = .ok b) : c.decode b = .ok (a,[]) := by
  simpa using c.decode_encode a b [] h

theorem Codec.encode_unextended (h : c.encode a = .ok b) (hw : c.encode a' = .ok w)
    (hp : b <+: w) : b = w := by
  obtain ⟨rest,rfl⟩ := hp
  have hd := c.decode_encode a b rest h
  rw [Codec.decode_whole hw] at hd
  cases hd
  exact (append_nil b).symm

end Whole

end Postcard
end PgBattery
