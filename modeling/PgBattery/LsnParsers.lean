import PgBattery.DrainProof
import PgBattery.Rewind

/-! The four readers of a position in the write-ahead log, and the texts that all of them read alike. -/
namespace PgBattery
namespace LsnParsers
open SqlReply DrainProof Rewind List

def parseLsn (lsnStr : Text) : Option U64 := do
  let (upperHex,lowerHex) ← splitOnce '/' (trim lsnStr)
  let upper ← fromStrRadix upperHex
  let lower ← fromStrRadix lowerHex
  pure (joinHalves upper lower)

/-- The readers, each after trimming; `parse_lsn_bytes` leaves that to its callers. -/
def readers : List (Text → Option U64) :=
  [parseLsn,parseLsnLocal,parseLsnStrict,fun s => parseLsnBytes (trim s)]

def isHalf (digits : Text) : Bool :=
  0 < digits.length && digits.length ≤ 8 && digits.all fun c => (hexValue c).isSome

def Position (text : Text) (n : ℕ) : Prop :=
  ∃ x y hi lo, text = x++ '/'::y ∧ isHalf x = true ∧ isHalf y = true ∧
    readHex x = some hi ∧ readHex y = some lo ∧ n = hi*2^32+lo

/-- All refuse the text or all read the same, and they read exactly the positions. -/
def Exact (s : Text) : Prop :=
  (∀ read ∈ readers, ∀ read' ∈ readers, read s = read' s) ∧
    ∀ read ∈ readers, ∀ lsn, read s = some lsn ↔ Position (trim s) lsn.val

/-- Two halves that are numbers once trimmed are short, unsigned and not set off by white space. -/
def Strict (s : Text) : Prop :=
  ∀ x y, '/' ∉ x → trim s = x++ '/'::y → fromStrRadix (trim x) ≠ none → fromStrRadix (trim y) ≠ none →
    isHalf x = true ∧ isHalf y = true

section Halves
variable {c : Char} {d n : ℕ} {x y s : Text}

theorem hexValue_spec (h : hexValue c = some d) :
    d < 16 ∧ whitespace c = false ∧ c ≠ '/' ∧ c ≠ '+' := by
  have hr : d < 16 ∧ 48 ≤ c.toNat ∧ c.toNat ≤ 102 := by
    simp only [hexValue,Char.le_def,UInt32.le_iff_toNat_le,← Char.toNat_val] at h ⊢
    split_ifs at h with h1 h2 h3 <;> simp at h <;> simp at * <;> omega
  refine ⟨hr.1,by simp [whitespace]; omega,?_,?_⟩ <;> rintro rfl <;> simp at hr

theorem readHex_spec (h : readHex x = some n) : n < 16^x.length ∧ ∀ c ∈ x, (hexValue c).isSome := by
  induction x using List.reverseRecOn generalizing n with
  | nil =>
    cases h
    simp
  | append_singleton x c ih =>
    simp only [readHex_append_digit,Option.bind_eq_some_iff,Option.map_eq_some_iff] at h
    obtain ⟨m,hm,d,hd,rfl⟩ := h
    obtain ⟨hlt,ha⟩ := ih hm
    have := (hexValue_spec hd).1
    refine ⟨?_,by simpa [hd,or_imp,forall_and] using ha⟩
    rw [length_append,length_singleton,pow_succ]
    omega

theorem exists_readHex (h : ∀ c ∈ x, (hexValue c).isSome) : ∃ n, readHex x = some n := by
  induction x using List.reverseRecOn with
  | nil => exact ⟨0,rfl⟩
  | append_singleton x c ih =>
    obtain ⟨n,hn⟩ := ih fun c hc => h c (mem_append_left _ hc)
    obtain ⟨d,hd⟩ := Option.isSome_iff_exists.1 (h c (by simp))
    simp [readHex_append_digit,hn,hd]

theorem trim_of_fromStrRadix (h : fromStrRadix x ≠ none) : trim x = x := by
  obtain ⟨digits,hr,hx⟩ : ∃ digits, readHex digits ≠ none ∧ (x = digits ∨ x = '+'::digits) := by
    cases x with
    | nil => simp [fromStrRadix] at h
    | cons c x =>
      by_cases hc : c = '+'
      · subst hc
        exact ⟨x,by rintro hno; simp [fromStrRadix,hno] at h,.inr rfl⟩
      · exact ⟨c::x,by rintro hno; simp [fromStrRadix,hc,hno] at h,.inl rfl⟩
  obtain ⟨n,hn⟩ := Option.ne_none_iff_exists'.1 hr
  have hp : ∀ c ∈ digits, whitespace c = false := by
    intro c hc
    obtain ⟨d,hd⟩ := Option.isSome_iff_exists.1 ((readHex_spec hn).2 c hc)
    exact (hexValue_spec hd).2.1
  refine trim_eq_self ?_
  rcases hx with rfl | rfl
  · exact hp
  · exact forall_mem_cons.2 ⟨by decide,hp⟩

theorem half_spec (h : isHalf x) : ∃ n, ∃ hn : n < 4294967296,
    readHex x = some n ∧ fromStrRadix x = some ⟨n,hn.trans (by decide)⟩ ∧ trim x = x ∧ '/' ∉ x := by
  simp only [isHalf,Bool.and_eq_true,decide_eq_true_eq,all_eq_true] at h
  obtain ⟨⟨hpo,hl⟩,ha⟩ := h
  obtain ⟨n,hn⟩ := exists_readHex ha
  have hlt : n < 4294967296 := (readHex_spec hn).1.trans_le (Nat.pow_le_pow_right (by decide) hl)
  have hp : ∀ c ∈ x, c ≠ '/' ∧ c ≠ '+' := by
    intro c hc
    obtain ⟨d,hd⟩ := Option.isSome_iff_exists.1 (ha c hc)
    exact (hexValue_spec hd).2.2
  have hr : fromStrRadix x = some ⟨n,hlt.trans (by decide)⟩ := by
    cases x with
    | nil => simp at hpo
    | cons c x =>
      have hs : c ≠ '+' := (hp c mem_cons_self).2
      simp [fromStrRadix,hs,hn,hlt.trans]
  exact ⟨n,hlt,hn,hr,trim_of_fromStrRadix (by simp [hr]),fun hc => (hp _ hc).1 rfl⟩

end Halves

section Readers
variable {x y s : Text}

theorem joinHalves_eq {hi lo : ℕ} (hhi : hi < 4294967296) (hlo : lo < 4294967296) :
    (joinHalves ⟨hi,hhi.trans (by decide)⟩ ⟨lo,hlo.trans (by decide)⟩).val = hi*2^32+lo := by
  have hlt : hi*2^32+lo < 18446744073709551616 := by omega
  have hh : (hi*2^32+lo)/4294967296 = hi := by omega
  have hl : (hi*2^32+lo)%4294967296 = lo := by omega
  have h := joinHalves_halves ⟨hi*2^32+lo,hlt⟩ (by simp only [hh]; omega) (by simp only [hl]; omega)
  simpa only [hh,hl] using congrArg Fin.val h

theorem position_iff {n : ℕ} (hsl : '/' ∉ x) (h : trim s = x++ '/'::y) :
    Position (trim s) n ↔ isHalf x ∧ isHalf y ∧
      ∃ hi lo, readHex x = some hi ∧ readHex y = some lo ∧ n = hi*2^32+lo := by
  constructor
  · rintro ⟨x',y',hi,lo,ht,hx,hy,hhi,hlo,rfl⟩
    obtain ⟨-,-,-,-,-,hs'⟩ := half_spec hx
    have hs := splitOnce_append (t := y) hsl
    rw [← h,ht,splitOnce_append hs'] at hs
    cases hs
    exact ⟨hx,hy,hi,lo,hhi,hlo,rfl⟩
  · rintro ⟨hx,hy,hi,lo,hhi,hlo,rfl⟩
    exact ⟨x,y,hi,lo,h,hx,hy,hhi,hlo,rfl⟩

theorem read_of_split (hs : '/' ∉ x) (h : trim s = x++ '/'::y) :
    parseLsn s = (fromStrRadix x).bind (fun hi => (fromStrRadix y).map (joinHalves hi)) ∧
      parseLsnStrict s = (fromStrRadix (trim x)).bind fun hi => (fromStrRadix (trim y)).map (joinHalves hi) := by
  simp [parseLsn,parseLsnStrict,parseLsnBytes,h,splitOnce_append hs,Option.map_eq_bind]

theorem exact_of_eq (h : parseLsnStrict s = parseLsn s)
    (hr : ∀ lsn, parseLsn s = some lsn ↔ Position (trim s) lsn.val) : Exact s := by
  have hre : ∀ read ∈ readers, read s = parseLsn s := by
    intro read hm
    simp only [readers,mem_cons,not_mem_nil,or_false] at hm
    rcases hm with rfl | rfl | rfl | rfl
    · rfl
    · rfl
    · exact h
    · exact h
  refine ⟨fun read hm read' hm' => (hre read hm).trans (hre read' hm').symm,?_⟩
  intro read hm
  rwa [hre read hm]

theorem exact_of_strict (hs : '/' ∉ x) (hte : trim s = x++ '/'::y) (h : Strict s) : Exact s := by
  obtain ⟨hp,hl⟩ := read_of_split hs hte
  by_cases hn : fromStrRadix (trim x) ≠ none ∧ fromStrRadix (trim y) ≠ none
  · obtain ⟨hx,hy⟩ := h x y hs hte hn.1 hn.2
    obtain ⟨hi,hhi,hre,hr,ht,-⟩ := half_spec hx
    obtain ⟨lo,hlo,hrd,hra,htr,-⟩ := half_spec hy
    refine exact_of_eq (by rw [hp,hl,ht,htr]) fun lsn => ?_
    rw [hp,hr,hra,Option.bind_some,Option.map_some,position_iff hs hte,Option.some_inj,
      Fin.ext_iff,joinHalves_eq hhi hlo]
    simp [hx,hy,hre,hrd,eq_comm]
  · have hrw : parseLsn s = none := by
      rw [hp]
      by_contra hso
      have hx : fromStrRadix x ≠ none := fun hx => hso (by simp [hx])
      have hy : fromStrRadix y ≠ none := fun hy => hso (by simp [hy])
      rw [trim_of_fromStrRadix hx,trim_of_fromStrRadix hy] at hn
      exact hn ⟨hx,hy⟩
    have hno : parseLsnStrict s = none := by
      rw [not_and_or,not_not,not_not] at hn
      rcases hn with hn | hn <;> simp [hl,hn]
    refine exact_of_eq (hno.trans hrw.symm) fun lsn => iff_of_false (by simp [hrw]) ?_
    rw [position_iff hs hte]
    rintro ⟨hx,hy,-⟩
    obtain ⟨hi,hhi,-,hr,ht,-⟩ := half_spec hx
    obtain ⟨lo,hlo,-,hra,htr,-⟩ := half_spec hy
    simp [ht,htr,hr,hra] at hn

/-- The readers agree on a text and read exactly the positions just if the lenient ones find no more
than the halves of a position in it. -/
theorem exact_iff_strict (s : Text) : Exact s ↔ Strict s := by
  constructor
  · intro h x y hs ht hx hy
    obtain ⟨hi,hhi⟩ := Option.ne_none_iff_exists'.1 hx
    obtain ⟨lo,hlo⟩ := Option.ne_none_iff_exists'.1 hy
    have hr : parseLsnStrict s = some (joinHalves hi lo) := by
      simp [(read_of_split hs ht).2,hhi,hlo]
    obtain ⟨hx,hy,-⟩ := (position_iff hs ht).1 ((h.2 _ (by simp [readers]) _).1 hr)
    exact ⟨hx,hy⟩
  · intro h
    by_cases hm : '/' ∈ trim s
    · obtain ⟨x,y,ht,hs⟩ := eq_append_cons_of_mem hm
      exact exact_of_strict hs ht h
    · have hn : parseLsn s = none := by simp [parseLsn,splitOnce,hm]
      refine exact_of_eq (by simp [hn,parseLsnStrict,parseLsnBytes,splitOnce,hm]) fun lsn => ?_
      refine iff_of_false (by simp [hn]) ?_
      rintro ⟨x,y,-,-,ht,-⟩
      simp [ht] at hm

/-- White space beside the slash parts the readers, and all of them drop the bits above an upper half. -/
theorem inner_space_and_wide_half :
    readers.map (fun read => read "0/ 5".toList) = [none,none,some 5,some 5] ∧
      readers.map (fun read => read "100000000/5".toList) = [some 5,some 5,some 5,some 5] ∧
      ¬ Exact "0/ 5".toList := by
  refine ⟨by decide,by decide,fun h => ?_⟩
  have ha := h.1 parseLsn (by simp [readers]) parseLsnStrict (by simp [readers])
  revert ha
  decide

end Readers
end LsnParsers
end PgBattery
