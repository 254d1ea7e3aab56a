import PgBattery.Word

/-! The text of PostgreSQL's replies: rows, booleans and positions in the write-ahead log, and how the
code reads them. -/
namespace PgBattery
namespace SqlReply
open List

abbrev Text := List Char

variable {c : Char} {s : Text}

section Replies

/-- Unicode's `White_Space`. -/
def whitespace (c : Char) : Bool :=
  (9 ≤ c.toNat && c.toNat ≤ 13) || (0x2000 ≤ c.toNat && c.toNat ≤ 0x200a)
    || c.toNat ∈ [0x20,0x85,0xa0,0x1680,0x2028,0x2029,0x202f,0x205f,0x3000]

def trim (s : Text) : Text := (s.dropWhile whitespace).rdropWhile whitespace

def lines : Text → List Text
  | [] => [[]]
  | c::cs =>
    match lines cs with
    | [] => [[c]]
    | l::ls => if c = '\n' then []::l::ls else (c::l)::ls

/-- How a reply's rows are handed over. -/
def render (rows : List Text) : Text := List.intercalate ['\n'] rows

def sqlLines (reply : Text) : List Text := ((lines reply).map trim).filter (· ≠ [])

/-- PostgreSQL's `boolean::text`. -/
def boolText (b : Bool) : Text := if b then "true".toList else "false".toList

def parsePgBool (raw : Text) : Except Text Bool :=
  let raw := trim raw
  if raw = "t".toList ∨ raw = "true".toList then .ok true
  else if raw = "f".toList ∨ raw = "false".toList then .ok false
  else .error ("expected a boolean from PostgreSQL, got ".toList++raw)

theorem parsePgBool_boolText (b : Bool) : parsePgBool (boolText b) = .ok b := by
  cases b <;> decide

def splitOnce (sep : Char) (s : Text) : Option (Text × Text) :=
  if sep ∈ s then some (s.takeWhile (· ≠ sep),(s.dropWhile (· ≠ sep)).tail) else none

def rsplitOnce (sep : Char) (s : Text) : Option (Text × Text) :=
  (splitOnce sep s.reverse).map fun parts => (parts.2.reverse,parts.1.reverse)

theorem lines_ne_nil (s : Text) : lines s ≠ [] := by
  cases s with
  | nil => simp [lines]
  | cons c cs =>
    rw [lines]
    split
    · simp
    · split <;> simp

theorem mem_lines (hc : c ≠ '\n') : ∀ {s : Text}, c ∈ s → ∃ l ∈ lines s, c ∈ l
  | d::cs, hm => by
    rw [lines]
    split
    · next h => exact absurd h (lines_ne_nil cs)
    · next l ls h =>
      rcases mem_cons.1 hm with rfl | hm
      · rw [if_neg hc]
        exact ⟨_,mem_cons_self,mem_cons_self⟩
      · obtain ⟨k,hk,hck⟩ := mem_lines hc hm
        rw [h] at hk
        by_cases hd : d = '\n'
        · rw [if_pos hd]
          exact ⟨k,mem_cons_of_mem _ hk,hck⟩
        · rw [if_neg hd]
          rcases mem_cons.1 hk with rfl | hk
          · exact ⟨_,mem_cons_self,mem_cons_of_mem _ hck⟩
          · exact ⟨k,mem_cons_of_mem _ hk,hck⟩

theorem lines_of_notMem (h : '\n' ∉ s) : lines s = [s] := by
  induction s with
  | nil => rfl
  | cons c s ih =>
    obtain ⟨hc,hs⟩ := not_or.1 (mt mem_cons.2 h)
    rw [lines,ih hs]
    exact if_neg (Ne.symm hc)

theorem lines_append (s t : Text) : lines (s++ '\n'::t) = lines s++lines t := by
  induction s with
  | nil =>
    change lines ('\n' :: t) = []::lines t
    rw [lines]
    split
    · next hn => exact absurd hn (lines_ne_nil t)
    · next l ls hl => rw [if_pos rfl,hl]
  | cons c s ih =>
    rw [cons_append,lines,lines,ih]
    cases hs : lines s with
    | nil => exact absurd hs (lines_ne_nil s)
    | cons l ls =>
      simp only [cons_append]
      split <;> rfl

theorem render_cons_cons (r q : Text) (rows : List Text) :
    render (r::q::rows) = r++ '\n'::render (q::rows) := by
  simp [render,List.intercalate]

theorem lines_render {rows : List Text} (hne : rows ≠ []) (h : ∀ row ∈ rows, '\n' ∉ row) :
    lines (render rows) = rows := by
  induction rows with
  | nil => exact absurd rfl hne
  | cons r rows ih =>
    have hr := h r mem_cons_self
    cases rows with
    | nil =>
      have ho : render [r] = r := by simp [render,List.intercalate]
      rw [ho,lines_of_notMem hr]
    | cons q rows =>
      rw [render_cons_cons,lines_append,lines_of_notMem hr,singleton_append]
      rw [ih (cons_ne_nil q rows) fun row hro => h row (mem_cons_of_mem r hro)]

variable {row : Text}

theorem mem_lines_render (h : '\n' ∉ row) : ∀ {rows : List Text}, row ∈ rows →
    row ∈ lines (render rows)
  | [r], hm => by
    obtain rfl := mem_singleton.1 hm
    rw [lines_render (cons_ne_nil _ _) (by simpa using h)]
    exact mem_cons_self
  | r::q::rows, hm => by
    rw [render_cons_cons,lines_append]
    rcases mem_cons.1 hm with rfl | hm
    · rw [lines_of_notMem h]
      exact mem_append_left _ mem_cons_self
    · exact mem_append_right _ (mem_lines_render h hm)

theorem mem_sqlLines {rows : List Text} (hm : row ∈ rows) (hn : '\n' ∉ row) (ht : trim row = row)
    (hne : row ≠ []) : row ∈ sqlLines (render rows) := by
  refine mem_filter.2 ⟨mem_map.2 ⟨row,mem_lines_render hn hm,ht⟩,?_⟩
  exact decide_eq_true hne

theorem trim_ne_nil (hc : whitespace c = false) (hm : c ∈ s) : trim s ≠ [] := by
  intro hn
  have hb := List.rdropWhile_eq_nil_iff.1 hn
  rw [← takeWhile_append_dropWhile (p := whitespace) (l := s)] at hm
  rcases mem_append.1 hm with hm | hm
  · rw [mem_takeWhile_imp hm] at hc
    cases hc
  · rw [hb c hm] at hc
    cases hc

theorem mem_render (hc : c ∈ row) : ∀ {rows : List Text}, row ∈ rows →
    c ∈ render rows
  | [r], h => by
    obtain rfl := mem_singleton.1 h
    simpa [render,List.intercalate] using hc
  | r::q::rows, h => by
    rw [render_cons_cons]
    rcases mem_cons.1 h with rfl | h
    · exact mem_append_left _ hc
    · exact mem_append_right _ (mem_cons_of_mem _ (mem_render hc h))

theorem rows_eq_nil {rows : List Text} (hc : whitespace c = false) (hr : ∀ row ∈ rows, c ∈ row)
    (h : sqlLines (render rows) = []) : rows = [] := by
  by_contra hne
  obtain ⟨row,hro⟩ := exists_mem_of_ne_nil _ hne
  have hn : c ≠ '\n' := by
    rintro rfl
    cases hc
  obtain ⟨l,hl,hcl⟩ := mem_lines hn (mem_render (hr row hro) hro)
  refine filter_eq_nil_iff.1 h (trim l) (mem_map_of_mem hl) ?_
  exact decide_eq_true (trim_ne_nil hc hcl)

end Replies

section Hex

def hexDigit (n : ℕ) : Char := if n < 10 then Char.ofNat (48+n) else Char.ofNat (55+n)

def hexValue (c : Char) : Option ℕ :=
  if '0' ≤ c ∧ c ≤ '9' then some (c.toNat-48)
  else if 'A' ≤ c ∧ c ≤ 'F' then some (c.toNat-55)
  else if 'a' ≤ c ∧ c ≤ 'f' then some (c.toNat-87)
  else none

theorem hexValue_hexDigit {n : ℕ} (h : n < 16) : hexValue (hexDigit n) = some n := by
  interval_cases n <;> rfl

def hex : ℕ → ℕ → Text
  | 0, _ => []
  | width+1, n => hex width (n/16)++[hexDigit (n%16)]

/-- `%X`. -/
def hexText (n : ℕ) : Text :=
  match (hex 8 n).dropWhile (· = '0') with
  | [] => ['0']
  | digits => digits

def readHex (digits : Text) : Option ℕ :=
  digits.foldlM (fun n c => (hexValue c).map fun d => n*16+d) 0

theorem readHex_append_digit (digits : Text) (c : Char) :
    readHex (digits++[c]) = (readHex digits).bind fun n => (hexValue c).map fun d => n*16+d := by
  simp only [readHex,foldlM_append,foldlM_cons,foldlM_nil,bind_pure]
  rfl

theorem readHex_hex (width n : ℕ) : readHex (hex width n) = some (n%16^width) := by
  induction width generalizing n with
  | zero =>
    rw [pow_zero,Nat.mod_one]
    rfl
  | succ width ih =>
    have hd := hexValue_hexDigit (Nat.mod_lt n (by decide : 0 < 16))
    rw [hex,readHex_append_digit,ih,Option.bind_some,hd,Option.map_some]
    congr 1
    rw [pow_succ',Nat.mod_mul]
    ring

theorem readHex_dropWhile (digits : Text) : readHex (digits.dropWhile (· = '0')) = readHex digits := by
  induction digits with
  | nil => rfl
  | cons c digits ih =>
    by_cases hc : c = '0'
    · subst hc
      rw [dropWhile_cons_of_pos (by decide),ih]
      rfl
    · rw [dropWhile_cons_of_neg (by simpa using hc)]

theorem readHex_hexText {n : ℕ} (h : n < 4294967296) : readHex (hexText n) = some n := by
  have hr := readHex_dropWhile (hex 8 n)
  rw [readHex_hex,Nat.mod_eq_of_lt (by simpa using h)] at hr
  rw [hexText]
  split
  · next hn =>
    rw [hn] at hr
    cases hr
    rfl
  · exact hr

end Hex

section Lsn

/-- `pg_lsn::text`. -/
def lsnText (lsn : U64) : Text := hexText (lsn.val/4294967296)++ '/'::hexText (lsn.val%4294967296)

/-- `u64::from_str_radix(s, 16)`. -/
def fromStrRadix (s : Text) : Option U64 :=
  let digits := match s with
    | '+' :: rest => rest
    | _ => s
  if digits = [] then none
  else (readHex digits).bind fun n => if h : n < 18446744073709551616 then some ⟨n,h⟩ else none

/-- `(hi << 32) | lo`. -/
def joinHalves (hi lo : U64) : U64 := Fin.ofNat _ ((hi.val<<<32)%18446744073709551616 ||| lo.val)

def parseLsnBytes (text : Text) : Option U64 := do
  let (upper,lower) ← splitOnce '/' text
  let hi ← fromStrRadix (trim upper)
  let lo ← fromStrRadix (trim lower)
  pure (joinHalves hi lo)

theorem exists_hexDigit_of_mem_hex {width n : ℕ} (h : c ∈ hex width n) :
    ∃ d < 16, c = hexDigit d := by
  induction width generalizing n with
  | zero => cases h
  | succ width ih =>
    rcases mem_append.1 h with h | h
    · exact ih h
    · exact ⟨n%16,Nat.mod_lt n (by decide),mem_singleton.1 h⟩

theorem exists_hexDigit_of_mem_hexText {n : ℕ} (h : c ∈ hexText n) : ∃ d < 16, c = hexDigit d := by
  rw [hexText] at h
  split at h
  · exact ⟨0,by decide,mem_singleton.1 h⟩
  · exact exists_hexDigit_of_mem_hex (dropWhile_subset _ h)

theorem plain_of_mem_hexText {n : ℕ} (h : c ∈ hexText n) :
    whitespace c = false ∧ c ≠ '/' ∧ c ≠ '+' := by
  obtain ⟨d,hd,rfl⟩ := exists_hexDigit_of_mem_hexText h
  interval_cases d <;> decide

theorem hexText_ne_nil (n : ℕ) : hexText n ≠ [] := by
  rw [hexText]
  split
  · exact cons_ne_nil _ _
  · next hne => exact hne

theorem whitespace_of_isDigit (h : c.isDigit) : whitespace c = false := by
  have hc : 48 ≤ c.toNat ∧ c.toNat ≤ 57 := by
    simp only [Char.isDigit,ge_iff_le,Bool.and_eq_true,decide_eq_true_eq,UInt32.le_iff_toNat_le] at h
    exact h
  obtain ⟨hl,hh⟩ := hc
  simp only [whitespace]
  interval_cases c.toNat <;> decide

theorem trim_eq_self (h : ∀ c ∈ s, whitespace c = false) : trim s = s := by
  have hd : s.dropWhile whitespace = s := by
    cases s with
    | nil => rfl
    | cons c s => exact dropWhile_cons_of_neg (by simp [h c mem_cons_self])
  rw [trim,hd,rdropWhile_eq_self_iff]
  intro hne
  simp [h _ (getLast_mem hne)]

theorem splitOnce_append {sep : Char} {t : Text} (h : sep ∉ s) :
    splitOnce sep (s++sep::t) = some (s,t) := by
  have hk : ∀ c ∈ s, decide (c ≠ sep) := by
    intro c hc
    refine decide_eq_true ?_
    rintro rfl
    exact h hc
  have ht : (s++sep::t).takeWhile (· ≠ sep) = s := by
    rw [takeWhile_append_of_pos hk,takeWhile_cons_of_neg (by simp),append_nil]
  have hd : (s++sep::t).dropWhile (· ≠ sep) = sep::t := by
    rw [dropWhile_append_of_pos hk,dropWhile_cons_of_neg (by simp)]
  rw [splitOnce,if_pos (mem_append_right _ mem_cons_self),ht,hd,tail_cons]

theorem rsplitOnce_append {sep : Char} {t : Text} (h : sep ∉ t) :
    rsplitOnce sep (s++sep::t) = some (s,t) := by
  have hr : (s++sep::t).reverse = t.reverse++sep::s.reverse := by
    rw [reverse_append,reverse_cons,append_assoc]
    rfl
  rw [rsplitOnce,hr,splitOnce_append fun hm => h (List.mem_reverse.1 hm),Option.map_some,
    reverse_reverse,reverse_reverse]

theorem fromStrRadix_hexText {n : ℕ} (h : n < 4294967296) :
    fromStrRadix (trim (hexText n)) = some ⟨n,h.trans (by decide)⟩ := by
  rw [trim_eq_self fun c hc => (plain_of_mem_hexText hc).1]
  have hs : ∀ rest, hexText n = '+' :: rest → False := by
    intro rest heq
    have hm : '+' ∈ hexText n := by
      rw [heq]
      exact mem_cons_self
    exact (plain_of_mem_hexText hm).2.2 rfl
  rw [fromStrRadix,if_neg (hexText_ne_nil n),readHex_hexText h,Option.bind_some,
    dif_pos (h.trans (by decide))]
  exact hs

theorem joinHalves_halves (lsn : U64) (hhi : lsn.val/4294967296 < 18446744073709551616)
    (hlo : lsn.val%4294967296 < 18446744073709551616) :
    joinHalves ⟨lsn.val/4294967296,hhi⟩ ⟨lsn.val%4294967296,hlo⟩ = lsn := by
  have hlt := lsn.isLt
  have hs : (lsn.val/4294967296)<<<32 = lsn.val/4294967296*4294967296 := Nat.shiftLeft_eq _ _
  have hm : ((lsn.val/4294967296)<<<32)%18446744073709551616 = (lsn.val/4294967296)<<<32 := by
    rw [hs]
    omega
  have hor : (lsn.val/4294967296)<<<32 ||| lsn.val%4294967296 = lsn.val := by
    have hl : lsn.val%4294967296 < 2^32 := Nat.mod_lt _ (by decide)
    rw [← Nat.shiftLeft_add_eq_or_of_lt hl,hs]
    omega
  refine Fin.ext ?_
  simp only [joinHalves,hm,hor,Fin.ofNat]
  exact Nat.mod_eq_of_lt hlt

theorem lsnText_halves (lsn : U64) : ∃ upper lower hi lo,
    splitOnce '/' (lsnText lsn) = some (upper,lower) ∧ trim upper = upper ∧ trim lower = lower ∧
      fromStrRadix upper = some hi ∧ fromStrRadix lower = some lo ∧ joinHalves hi lo = lsn := by
  have hhi : lsn.val/4294967296 < 4294967296 := by
    have hlt := lsn.isLt
    omega
  have hlo : lsn.val%4294967296 < 4294967296 := Nat.mod_lt _ (by decide)
  have hs : '/' ∉ hexText (lsn.val/4294967296) := fun h => (plain_of_mem_hexText h).2.1 rfl
  have ht : ∀ n, trim (hexText n) = hexText n := fun n =>
    trim_eq_self fun c hc => (plain_of_mem_hexText hc).1
  have hu := fromStrRadix_hexText hhi
  have hl := fromStrRadix_hexText hlo
  rw [ht] at hu hl
  exact ⟨_,_,_,_,splitOnce_append hs,ht _,ht _,hu,hl,joinHalves_halves lsn _ _⟩

theorem parseLsnBytes_lsnText (lsn : U64) : parseLsnBytes (lsnText lsn) = some lsn := by
  obtain ⟨upper,lower,hi,lo,hs,hu,hl,hhi,hlo,hj⟩ := lsnText_halves lsn
  simp [parseLsnBytes,hs,hu,hl,hhi,hlo,hj]

theorem whitespace_of_mem_lsnText {lsn : U64} (h : c ∈ lsnText lsn) : whitespace c = false := by
  rcases mem_append.1 h with h | h
  · exact (plain_of_mem_hexText h).1
  · rcases mem_cons.1 h with rfl | h
    · rfl
    · exact (plain_of_mem_hexText h).1

theorem trim_lsnText (lsn : U64) : trim (lsnText lsn) = lsnText lsn :=
  trim_eq_self fun _ h => whitespace_of_mem_lsnText h

end Lsn
end SqlReply
end PgBattery
