import PgBattery.Lexical

/-! Exactly when the gateway's search for the first keyword of a statement misses a statement that
PostgreSQL's lexer begins there: a carriage return and a vertical tab are read differently. -/
namespace PgBattery
namespace Reading
open Postcard Analysis Lexical List

/-- A byte as the gateway's scans read it: a carriage return ends no comment, so it is one blank among
others, and a vertical tab is no blank, so it is one operator among others. -/
def readByte (b : U8) : U8 := if b = 13 then 32 else if b = 11 then 43 else b

def reading (text : Bytes) : Bytes := text.map readByte

section Bytes

theorem readByte_eq (c : U8) (h13 : c ≠ 13) (h11 : c ≠ 11) (h32 : c ≠ 32) (h43 : c ≠ 43) (b : U8) :
    readByte b = c ↔ b = c := by
  rw [readByte]
  split_ifs with hcr hvt
  · rw [hcr]
    exact iff_of_false (Ne.symm h32) (Ne.symm h13)
  · rw [hvt]
    exact iff_of_false (Ne.symm h43) (Ne.symm h11)
  · rfl

theorem readByte_ne : ∀ b, readByte b ≠ 13 ∧ readByte b ≠ 11 := by grind [readByte]

@[simp] theorem isAsciiWhitespace_readByte : ∀ b,
    isAsciiWhitespace (readByte b) = isAsciiWhitespace b := by
  grind [isAsciiWhitespace,readByte]

@[simp] theorem isWordByte_readByte : ∀ b, isWordByte (readByte b) = isWordByte b := by
  grind [isWordByte,isAsciiAlphanumeric,readByte]

@[simp] theorem continuesIdentifier_readByte : ∀ b,
    continuesIdentifier (readByte b) = continuesIdentifier b := by
  grind [continuesIdentifier,isAsciiAlphanumeric,readByte]

theorem isDigit_readByte : ∀ b, (48 ≤ readByte b && readByte b ≤ 57) = (48 ≤ b && b ≤ 57) := by
  grind [readByte]

/-- The bytes of an identifier are read as they are. -/
theorem readByte_of_continues : ∀ b, continuesIdentifier b → readByte b = b := by
  grind [continuesIdentifier,isAsciiAlphanumeric,readByte]

theorem word_ne : ∀ c, continuesIdentifier c → c ≠ 13 ∧ c ≠ 11 ∧ c ≠ 32 ∧ c ≠ 43 := by
  grind [continuesIdentifier,isAsciiAlphanumeric]

theorem readByte_eq_word {c : U8} (hc : continuesIdentifier c) (b : U8) : readByte b = c ↔ b = c := by
  obtain ⟨h13,h11,h32,h43⟩ := word_ne c hc
  exact readByte_eq c h13 h11 h32 h43 b

end Bytes

section Reading
variable (l : Bytes)

theorem head_reading (c : U8) (h13 : c ≠ 13) (h11 : c ≠ 11) (h32 : c ≠ 32) (h43 : c ≠ 43) :
    (reading l).head? = some c ↔ l.head? = some c := by
  cases l with
  | nil => rfl
  | cons b l => simpa [reading] using readByte_eq c h13 h11 h32 h43 b

theorem any_reading {p : U8 → Bool} (hp : ∀ b, p (readByte b) = p b) (o : Option U8) :
    (o.map readByte).any p = o.any p := by
  cases o with
  | none => rfl
  | some b => exact hp b

theorem skipBlank_reading (m : Blank) :
    skipBlank m (reading l) = (skipBlank m l).map reading := by
  have heq := readByte_eq
  fun_induction skipBlank m l with
  | case7 a b rest hs hl hb =>
    simp (disch := decide) only [reading,map_cons,skipBlank,isAsciiWhitespace_readByte,readByte_eq]
    rw [if_neg hs,if_neg hl,if_neg hb]
    rfl
  | case17 d a b rest ho hc ih =>
    simp (disch := decide) only [reading,map_cons,skipBlank,readByte_eq]
    rw [if_neg ho,if_neg hc]
    exact ih
  | _ => simp_all [reading,skipBlank]

theorem takeWhile_reading {p : U8 → Bool} (hp : ∀ b, p (readByte b) = p b) :
    (reading l).takeWhile p = reading (l.takeWhile p) := by
  have hc : p ∘ readByte = p := funext hp
  rw [reading,takeWhile_map,hc]
  rfl

theorem dropWhile_reading {p : U8 → Bool} (hp : ∀ b, p (readByte b) = p b) :
    (reading l).dropWhile p = reading (l.dropWhile p) := by
  have hc : p ∘ readByte = p := funext hp
  rw [reading,dropWhile_map,hc]
  rfl

theorem reading_eq_self {l : Bytes} (h : ∀ b ∈ l, continuesIdentifier b) : reading l = l := by
  have hm : l.map readByte = l.map id :=
    map_congr_left fun b hb => readByte_of_continues b (h b hb)
  rw [reading,hm,map_id]

theorem continuesIdentifier_of_isWordByte : ∀ b, isWordByte b → continuesIdentifier b := by
  grind [continuesIdentifier,isWordByte]

theorem firstStatementKeyword_reading :
    firstStatementKeyword (reading l) = firstStatementKeyword l := by
  rw [firstStatementKeyword,firstStatementKeyword,skipBlank_reading]
  cases hs : skipBlank .space l with
  | none => rfl
  | some rest =>
    have hw : ∀ b ∈ rest.takeWhile isWordByte, continuesIdentifier b := fun b hb =>
      continuesIdentifier_of_isWordByte b (mem_takeWhile_imp hb)
    simp only [Option.map_some,Option.bind_some,takeWhile_reading _ isWordByte_readByte,
      reading_eq_self hw]

theorem skipLiteral_reading : skipLiteral (reading l) = (skipLiteral l).map reading := by
  have heq := readByte_eq
  fun_induction skipLiteral l with
  | _ => simp_all [reading,skipLiteral]

theorem skipQuotedIdentifier_reading :
    skipQuotedIdentifier (reading l) = reading (skipQuotedIdentifier l) := by
  have heq := readByte_eq
  fun_induction skipQuotedIdentifier l with
  | _ => simp_all [reading,skipQuotedIdentifier]

theorem skipBlockComment_reading (d : ℕ) :
    skipBlockComment d (reading l) = reading (skipBlockComment d l) := by
  fun_induction skipBlockComment d l with
  | case6 d a b rest ho hc ih =>
    simp (disch := decide) only [reading,map_cons,skipBlockComment,readByte_eq]
    rw [if_neg ho,if_neg hc]
    exact ih
  | _ => simp_all [reading,skipBlockComment,readByte_eq]

theorem isPrefixOf_reading {tag : Bytes} (ht : ∀ b ∈ tag, continuesIdentifier b) :
    tag.isPrefixOf (reading l) = tag.isPrefixOf l := by
  induction tag generalizing l with
  | nil => rfl
  | cons c tag ih =>
    cases l with
    | nil => rfl
    | cons b l =>
      have hc := readByte_eq_word (ht c mem_cons_self) b
      have hr := ih l fun b hb => ht b (mem_cons_of_mem _ hb)
      simp only [reading,map_cons,List.isPrefixOf] at hr ⊢
      rw [hr]
      congr 1
      rw [Bool.eq_iff_iff,beq_iff_eq,beq_iff_eq,eq_comm,hc,eq_comm]

theorem skipDollarQuoted_reading {tag : Bytes} (ht : ∀ b ∈ tag, continuesIdentifier b) :
    skipDollarQuoted tag (reading l) = (skipDollarQuoted tag l).map reading := by
  induction l with
  | nil =>
    rw [reading,map_nil,skipDollarQuoted]
    split_ifs <;> rfl
  | cons b l ih =>
    have hp := isPrefixOf_reading (b::l) ht
    rw [reading,map_cons] at hp
    rw [reading,map_cons,skipDollarQuoted,skipDollarQuoted,hp]
    split_ifs
    · rw [← map_cons,← map_drop]
      rfl
    · exact ih

theorem trimStatementEnd_reading : trimStatementEnd (reading l) = reading (trimStatementEnd l) := by
  have he : ∀ b, (readByte b = 59 || isAsciiWhitespace (readByte b)) =
      (b = 59 || isAsciiWhitespace b) := by grind [isAsciiWhitespace,readByte]
  have hd := dropWhile_reading l.reverse (p := fun b => b = 59 || isAsciiWhitespace b) he
  have hr : (reading l).reverse = reading l.reverse := List.map_reverse.symm
  rw [trimStatementEnd,hr,hd]
  exact List.map_reverse.symm

theorem tag_reading : ∀ b, (readByte b ≠ 36 && continuesIdentifier (readByte b)) =
    (b ≠ 36 && continuesIdentifier b) := by
  grind [continuesIdentifier_readByte,readByte]

theorem drop_reading (n : ℕ) : (reading l).drop n = reading (l.drop n) := map_drop.symm

theorem length_reading : (reading l).length = l.length := length_map _

theorem tagOf_reading : tagOf (reading l) = tagOf l := by
  have hw : ∀ b ∈ tagOf l, continuesIdentifier b := fun b hb => by
    have hb := mem_takeWhile_imp hb
    simp only [Bool.and_eq_true] at hb
    exact hb.2
  rw [tagOf,takeWhile_reading l (p := fun c => c ≠ 36 && continuesIdentifier c) tag_reading]
  exact reading_eq_self hw

theorem continues_closing : ∀ b ∈ 36::tagOf l++[36], continuesIdentifier b := by
  intro b hb
  rcases mem_append.1 hb with hb | hb
  · rcases mem_cons.1 hb with rfl | hb
    · rfl
    · have hb := mem_takeWhile_imp hb
      simp only [Bool.and_eq_true] at hb
      exact hb.2
  · rw [mem_singleton.1 hb]
    rfl

theorem startsDigit_reading : (reading l).head?.any (fun c => 48 ≤ c && c ≤ 57) =
    l.head?.any fun c => 48 ≤ c && c ≤ 57 := by
  rw [reading,List.head?_map]
  exact any_reading (p := fun c => 48 ≤ c && c ≤ 57) isDigit_readByte l.head?

theorem dropLine_reading : (reading l).dropWhile (· ≠ 10) = reading (l.dropWhile (· ≠ 10)) := by
  have hlf : ∀ b, decide (readByte b ≠ 10) = decide (b ≠ 10) := by grind [readByte]
  exact dropWhile_reading l (p := fun b => b ≠ 10) hlf

/-- The scan after a dollar-quoted text, if it ends. -/
def scanSkipped (fuel : ℕ) : Option Bytes → Bool
  | none => false
  | some rest => scanSemicolon fuel (some 36) rest

/-- The scan for a semicolon does not tell a text from its reading. -/
theorem scanSemicolon_reading (fuel : ℕ) (before : Option U8) :
    scanSemicolon fuel (before.map readByte) (reading l) = scanSemicolon fuel before l := by
  induction fuel generalizing before l with
  | zero => rfl
  | succ fuel ih =>
    cases l with
    | nil => rfl
    | cons b rest =>
      -- the scan goes on alike after the byte itself and after a byte that is read as it is
      have hn : scanSemicolon fuel (some (readByte b)) (reading rest) =
          scanSemicolon fuel (some b) rest := ih rest (some b)
      have ha : ∀ c, readByte c = c → ∀ rest, scanSemicolon fuel (some c) (reading rest) =
          scanSemicolon fuel (some c) rest := by
        intro c hc rest
        have hr := ih rest (some c)
        rwa [Option.map_some,hc] at hr
      have hs : ∀ o : Option Bytes, scanSkipped fuel (o.map reading) = scanSkipped fuel o := by
        intro o
        cases o with
        | none => rfl
        | some rest => exact ha 36 rfl rest
      change scanSemicolon (fuel+1) (before.map readByte) (readByte b::reading rest) = _
      rw [scanSemicolon,scanSemicolon]
      change (if _ then _ else if _ then _ else if _ then _ else if _ then _ else if _ then
        if ((reading rest).drop (tagOf (reading rest)).length).head? = some 36 ∧ _ then
          scanSkipped fuel (skipDollarQuoted (36::tagOf (reading rest)++[36])
            (((reading rest).drop (tagOf (reading rest)).length).drop 1))
        else _ else _) = _
      simp (disch := decide) only [readByte_eq,skipLiteral_reading,skipQuotedIdentifier_reading,
        any_reading continuesIdentifier_readByte,tagOf_reading,drop_reading,head_reading,
        startsDigit_reading,dropLine_reading,skipBlockComment_reading,
        skipDollarQuoted_reading _ (continues_closing rest),hn,ha 34 rfl,ha 45 rfl,
        ha 47 rfl,hs _]
      cases skipLiteral rest with
      | none => rfl
      | some after =>
        simp only [Option.map_some,ha 39 rfl]
        rfl

theorem hasTopLevelSemicolon_reading :
    hasTopLevelSemicolon (reading l) = hasTopLevelSemicolon l := by
  have hs := scanSemicolon_reading l l.length none
  rwa [hasTopLevelSemicolon,length_reading]

end Reading

end Reading
end PgBattery
