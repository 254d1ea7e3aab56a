import PgBattery.Analysis

/-! Where PostgreSQL's lexer puts the first keyword of a statement, and that the gateway's scans over
the bytes of a query find it there. -/
namespace PgBattery
namespace Lexical
open Postcard Analysis List

def isSpace (b : U8) : Bool := b = 32 || (9 ≤ b && b ≤ 13)

/-- Bytes at whose end a block comment of the given depth ends. -/
inductive Closes : ℕ → Bytes → Prop
  | done : Closes 0 []
  | nest {d : ℕ} {rest : Bytes} : Closes (d+2) rest → Closes (d+1) (47::42::rest)
  | close {d : ℕ} {rest : Bytes} : Closes d rest → Closes (d+1) (42::47::rest)
  | byte {d : ℕ} {a b : U8} {rest : Bytes} : ¬(a = 47 ∧ b = 42) → ¬(a = 42 ∧ b = 47) →
    Closes (d+1) (b::rest) → Closes (d+1) (a::b::rest)

/-- White space and comments; a line comment ends at a line feed or a carriage return. -/
inductive Gap : Bytes → Prop
  | nil : Gap []
  | space {b : U8} {rest : Bytes} : isSpace b → Gap rest → Gap (b::rest)
  | line {body : Bytes} {b : U8} {rest : Bytes} : (∀ c ∈ body, c ≠ 10 ∧ c ≠ 13) →
    (b = 10 ∨ b = 13) → Gap rest → Gap (45::45::(body++b::rest))
  | block {body rest : Bytes} : Closes 1 body → Gap rest → Gap (47::42::(body++rest))

/-- The rest of a literal, with its closing quote; a backslash may escape a byte or stand for itself. -/
inductive Literal : Bytes → Prop
  | close : Literal [39]
  | quote {rest : Bytes} : Literal rest → Literal (39::39::rest)
  | byte {b : U8} {rest : Bytes} : b ≠ 39 → Literal rest → Literal (b::rest)
  | escape {b : U8} {rest : Bytes} : Literal rest → Literal (92::b::rest)

/-- The rest of a quoted identifier, with its closing quote. -/
inductive Quoted : Bytes → Prop
  | close : Quoted [34]
  | quote {rest : Bytes} : Quoted rest → Quoted (34::34::rest)
  | byte {b : U8} {rest : Bytes} : b ≠ 34 → Quoted rest → Quoted (b::rest)

def isTag (tag : Bytes) : Bool :=
  (tag.all fun c => c ≠ 36 && continuesIdentifier c) && !tag.head?.any fun c => 48 ≤ c && c ≤ 57

def startsIdentifier (b : U8) : Bool := continuesIdentifier b && b ≠ 36 && !(48 ≤ b && b ≤ 57)

/-- Whole tokens and comments before the byte `next`; a dollar sign is part of an identifier and not of
a number. -/
inductive Lexed (next : U8) : Bytes → Prop
  | nil : Lexed next []
  | word {b : U8} {body rest : Bytes} : startsIdentifier b → body.all continuesIdentifier →
    (rest++[next]).head?.any continuesIdentifier = false → Lexed next rest →
    Lexed next (b::body++rest)
  | number {b : U8} {body rest : Bytes} : 48 ≤ b ∧ b ≤ 57 →
    (body.all fun c => c ≠ 36 && continuesIdentifier c) → Lexed next rest →
    Lexed next (b::body++rest)
  | byte {b : U8} {rest : Bytes} : b ≠ 39 → b ≠ 34 → (continuesIdentifier b → b = 36) →
    (b = 45 → (rest++[next]).head? ≠ some 45) → (b = 47 → (rest++[next]).head? ≠ some 42) →
    (b = 36 → ∀ tag after, rest++[next] = tag++36::after → isTag tag = false) →
    Lexed next rest → Lexed next (b::rest)
  | literal {lit rest : Bytes} : Literal lit → (rest++[next]).head? ≠ some 39 → Lexed next rest →
    Lexed next (39::(lit++rest))
  | quoted {name rest : Bytes} : Quoted name → (rest++[next]).head? ≠ some 34 → Lexed next rest →
    Lexed next (34::(name++rest))
  | dollar {tag body rest : Bytes} : isTag tag →
    (∀ k < body.length, ¬(36::tag++[36]) <+: (body++(36::tag++[36])).drop k) → Lexed next rest →
    Lexed next (36::(tag++36::(body++((36::tag++[36])++rest))))
  | line {body : Bytes} {b : U8} {rest : Bytes} : (∀ c ∈ body, c ≠ 10 ∧ c ≠ 13) →
    (b = 10 ∨ b = 13) → Lexed next rest → Lexed next (45::45::(body++b::rest))
  | block {body rest : Bytes} : Closes 1 body → Lexed next rest → Lexed next (47::42::(body++rest))

/-- No dollar quote directly after the byte `p`, a number, a parameter or a dollar quote. -/
def Apart (p : Option U8) (text : Bytes) : Prop :=
  ∀ before tag after, text = before++36::(tag++36::after) → isTag tag → Lexed 36 before →
    (before.getLast?.or p).any continuesIdentifier = false

/-- A word at the front of the bytes, in any case, and no word byte after it. -/
structure Starts (keyword bytes : Bytes) : Prop where
  word : eqIgnoreAsciiCase (bytes.take keyword.length) keyword
  ends : (bytes.drop keyword.length).head?.any isWordByte = false

def Occurs (keyword text : Bytes) : Prop :=
  ∃ before after, text = before++after ∧ before.getLast?.any isWordByte = false ∧
    Starts keyword after

/-- A statement of the text begins with the word: the first one, or one after a semicolon. -/
inductive Leads (keyword text : Bytes) : Prop
  | first (gap after : Bytes) (hgap : Gap gap) (hstarts : Starts keyword after)
    (htext : text = gap++after)
  | later (before gap after : Bytes) (hlexed : Lexed 59 before) (hgap : Gap gap)
    (hstarts : Starts keyword after) (htext : text = before++59::(gap++after))

/-- No vertical tab, and no carriage return but before a line feed. -/
def tidy : Bytes → Bool
  | [] => true
  | b::rest => b ≠ 11 && (b ≠ 13 || rest.head? = some 10) && tidy rest

theorem tidy_cons {b : U8} {rest : Bytes} (h : tidy (b::rest)) :
    b ≠ 11 ∧ (b = 13 → rest.head? = some 10) ∧ tidy rest := by
  simp only [tidy,Bool.and_eq_true,Bool.or_eq_true,decide_eq_true_eq] at h
  refine ⟨h.1.1,fun hb => ?_,h.2⟩
  rcases h.1.2 with hne | hlf
  · exact absurd hb hne
  · exact hlf

theorem tidy_append {l r : Bytes} (h : tidy (l++r)) : tidy r := by
  induction l with
  | nil => exact h
  | cons b l ih => exact ih (tidy_cons h).2.2

theorem tidy_take {l r : Bytes} {b : U8} (hb : b ≠ 13) (h : tidy (l++b::r)) : tidy (l++[b]) := by
  induction l with
  | nil => simp [tidy,hb,(tidy_cons h).1]
  | cons c l ih =>
    obtain ⟨hvt,hcr,hr⟩ := tidy_cons h
    have hh : (l++[b]).head? = (l++b::r).head? := by cases l <;> rfl
    simp only [cons_append,tidy,ih hr,hh,Bool.and_true,Bool.and_eq_true,Bool.or_eq_true,
      decide_eq_true_eq]
    exact ⟨hvt,(em (c = 13)).symm.imp id hcr⟩

section Blank
variable {d : ℕ} {body rest : Bytes}

theorem skipBlockComment_closes (h : Closes d body) (rest : Bytes) :
    skipBlockComment d (body++rest) = rest := by
  induction h with
  | done => rw [nil_append,skipBlockComment]
  | nest _ ih => exact ih
  | close _ ih => exact ih
  | byte ho hc _ ih =>
    simp only [cons_append,skipBlockComment,if_neg ho,if_neg hc]
    exact ih

theorem skipBlank_closes (h : Closes d body) (hd : 0 < d) (rest : Bytes) :
    skipBlank (.block d) (body++rest) = skipBlank .space rest := by
  induction h with
  | done => exact absurd hd (Nat.lt_irrefl 0)
  | nest _ ih => exact ih (Nat.succ_pos _)
  | @close d body hcl ih =>
    cases d with
    | zero =>
      cases hcl
      rfl
    | succ d => exact ih (Nat.succ_pos _)
  | byte ho hc _ ih =>
    simp only [cons_append,skipBlank,if_neg ho,if_neg hc]
    exact ih (Nat.succ_pos _)

theorem skipBlank_space {b : U8} (hb : isAsciiWhitespace b) (rest : Bytes) :
    skipBlank .space (b::rest) = skipBlank .space rest := by
  cases rest with
  | nil => simp [skipBlank,hb]
  | cons c rest => simp [skipBlank,hb]

theorem skipBlank_line (h : ∀ c ∈ body, c ≠ 10) (rest : Bytes) :
    skipBlank .line (body++10::rest) = skipBlank .space rest := by
  induction body with
  | nil => simp [skipBlank]
  | cons c body ih =>
    simp only [cons_append,skipBlank,if_neg (h c mem_cons_self)]
    exact ih fun c' hc' => h c' (mem_cons_of_mem _ hc')

theorem isAsciiWhitespace_of_isSpace : ∀ b : U8, isSpace b → b ≠ 11 → isAsciiWhitespace b := by
  grind [isSpace,isAsciiWhitespace]

theorem skipBlank_word {w : U8} (hw : isWordByte w) (rest : Bytes) :
    skipBlank .space (w::rest) = some (w::rest) := by
  have hs : isAsciiWhitespace w = false ∧ w ≠ 45 ∧ w ≠ 47 := by
    grind [isWordByte,isAsciiAlphanumeric,isAsciiWhitespace]
  cases rest with
  | nil => simp [skipBlank,hs.1]
  | cons c rest => simp [skipBlank,hs.1,hs.2.1,hs.2.2]

theorem skipBlank_gap {gap : Bytes} {w : U8} (hg : Gap gap) (hw : isWordByte w)
    (ht : tidy (gap++w::rest)) : skipBlank .space (gap++w::rest) = some (w::rest) := by
  induction hg with
  | nil => exact skipBlank_word hw rest
  | space hb _ ih =>
    obtain ⟨hvt,_,ht⟩ := tidy_cons ht
    exact (skipBlank_space (isAsciiWhitespace_of_isSpace _ hb hvt) _).trans (ih ht)
  | @line body b gap hbo hb _ ih =>
    rw [cons_append,cons_append,append_assoc] at ht ⊢
    have hta : tidy (b::(gap++w::rest)) := tidy_append (tidy_cons (tidy_cons ht).2.2).2.2
    obtain ⟨_,hcr,hga⟩ := tidy_cons hta
    change skipBlank .line (body++b::(gap++w::rest)) = _
    rcases hb with rfl | rfl
    · rw [skipBlank_line fun c hc => (hbo c hc).1]
      exact ih hga
    · -- a carriage return ends the comment for the lexer, the line feed after it for the gateway
      have hn := hcr rfl
      cases gap with
      | nil =>
        have hw1 : w = 10 := by simpa using hn
        rw [hw1] at hw
        cases hw
      | cons c gap =>
        have hc : c = 10 := by simpa using hn
        subst hc
        have hl := @skipBlank_line (body++[13]) (fun c hc => ?_) (gap++w::rest)
        · rw [append_assoc] at hl
          have hs := skipBlank_space (b := 10) rfl (gap++w::rest)
          exact hl.trans (hs.symm.trans (ih hga))
        · rcases mem_append.1 hc with hc | hc
          · exact (hbo c hc).1
          · rw [mem_singleton.1 hc]
            decide
  | @block body gap hbo _ ih =>
    rw [cons_append,cons_append,append_assoc] at ht ⊢
    have hta : tidy (gap++w::rest) := tidy_append (tidy_cons (tidy_cons ht).2.2).2.2
    exact (skipBlank_closes hbo Nat.one_pos _).trans (ih hta)

end Blank

section Scan
variable {rest : Bytes}

theorem Literal.exists_cons {lit : Bytes} (h : Literal lit) : ∃ b l, lit = b::l := by
  cases h <;> exact ⟨_,_,rfl⟩

theorem skipLiteral_append {lit : Bytes} (h : Literal lit) (hr : rest.head? ≠ some 39) :
    skipLiteral (lit++rest) = none ∨ skipLiteral (lit++rest) = some rest := by
  induction h with
  | close =>
    right
    cases rest with
    | nil => rfl
    | cons b rest =>
      have hb : b ≠ 39 := by simpa using hr
      simp [skipLiteral,hb]
  | quote _ ih => exact ih
  | @byte b lit hb hl ih =>
    obtain ⟨c,l,rfl⟩ := hl.exists_cons
    by_cases hs : b = 92
    · exact .inl (by simp [skipLiteral,hs])
    · simpa only [cons_append,skipLiteral,if_neg hs,if_neg hb] using ih
  | escape _ _ => exact .inl rfl

theorem Quoted.exists_cons {name : Bytes} (h : Quoted name) : ∃ b l, name = b::l := by
  cases h <;> exact ⟨_,_,rfl⟩

theorem skipQuotedIdentifier_append {name : Bytes} (h : Quoted name) (hr : rest.head? ≠ some 34) :
    skipQuotedIdentifier (name++rest) = rest := by
  induction h with
  | close =>
    cases rest with
    | nil => rfl
    | cons b rest =>
      have hb : b ≠ 34 := by simpa using hr
      simp [skipQuotedIdentifier,hb]
  | quote _ ih => exact ih
  | @byte b name hb hn ih =>
    obtain ⟨c,l,rfl⟩ := hn.exists_cons
    simpa only [cons_append,skipQuotedIdentifier,if_neg hb] using ih

theorem skipDollarQuoted_append {tag body : Bytes} (ht : tag ≠ [])
    (h : ∀ k < body.length, ¬tag <+: (body++tag).drop k) (rest : Bytes) :
    skipDollarQuoted tag (body++(tag++rest)) = some rest := by
  induction body with
  | nil =>
    obtain ⟨b,l,rfl⟩ := exists_cons_of_ne_nil ht
    have hp : (b::l).isPrefixOf (b::(l++rest)) := isPrefixOf_iff_prefix.2 (prefix_append _ _)
    simp only [nil_append,cons_append,skipDollarQuoted]
    rw [if_pos hp,← cons_append,drop_left]
  | cons b body ih =>
    have hno : ¬tag.isPrefixOf (b::(body++(tag++rest))) := by
      intro hp
      have hpr : tag <+: (b::body++tag)++rest := by
        simpa using isPrefixOf_iff_prefix.1 hp
      refine h 0 (Nat.succ_pos _) ?_
      exact prefix_of_prefix_length_le hpr (prefix_append _ _)
        (by rw [drop_zero,length_append]; exact Nat.le_add_left _ _)
    simp only [cons_append,skipDollarQuoted]
    rw [if_neg hno]
    exact ih fun k hk => h (k+1) (Nat.succ_lt_succ hk)

theorem scanSemicolon_before {l : Bytes} (h : l.head? ≠ some 36) (p q : Option U8) (fuel : ℕ) :
    scanSemicolon fuel p l = scanSemicolon fuel q l := by
  cases fuel with
  | zero => rfl
  | succ fuel =>
    cases l with
    | nil => rfl
    | cons b l =>
      have hb : b ≠ 36 := by simpa using h
      simp [scanSemicolon,hb]

/-- A dollar that opens no quote before the semicolon opens none at all. -/
theorem not_opens {tag after rest post : Bytes} (hr : rest++59::post = tag++36::after)
    (ht : isTag tag) : ∃ after, rest = tag++36::after := by
  rcases List.append_eq_append_iff.1 hr with ⟨l,rfl,hl⟩ | ⟨l,rfl,hl⟩
  · cases l with
    | nil => cases hl
    | cons b l =>
      have hb : 59 = b := by simpa using (List.cons.inj hl).1
      subst hb
      simp [isTag,continuesIdentifier,isAsciiAlphanumeric] at ht
  · cases l with
    | nil => cases hl
    | cons b l =>
      have hb : 36 = b := by simpa using (List.cons.inj hl).1
      exact ⟨l,by rw [hb]⟩

theorem takeWhile_tag {tag : Bytes} (ht : isTag tag) (after : Bytes) :
    ((tag++36::after).takeWhile fun c => c ≠ 36 && continuesIdentifier c) = tag := by
  simp only [isTag,Bool.and_eq_true,all_eq_true] at ht
  rw [takeWhile_append_of_pos (by simpa using ht.1)]
  simp

theorem head_append_cons (b : U8) (l r r' : Bytes) : (l++b::r).head? = (l++b::r').head? := by
  cases l <;> rfl

theorem dropWhile_line {body : Bytes} (h : ∀ c ∈ body, c ≠ 10) (l : Bytes) :
    (body++10::l).dropWhile (· ≠ 10) = 10::l := by
  rw [dropWhile_append_of_pos (by simpa using h)]
  simp

/-- What the gateway takes for a tag. -/
def tagOf (l : Bytes) : Bytes := l.takeWhile fun c => c ≠ 36 && continuesIdentifier c

theorem found_tag {l : Bytes} (h : (l.drop (tagOf l).length).head? = some 36) :
    ∃ after, l = tagOf l++36::after := by
  have hs := List.prefix_iff_eq_append.1
    (List.takeWhile_prefix (fun c : U8 => c ≠ 36 && continuesIdentifier c) (l := l))
  obtain ⟨after,ha⟩ := List.head?_eq_some_iff.1 h
  exact ⟨after,by rw [← ha]; exact hs.symm⟩

theorem isTag_tagOf {l : Bytes} (h : l.head?.any (fun c => 48 ≤ c && c ≤ 57) = false) :
    isTag (tagOf l) := by
  have ha : (tagOf l).all fun c => c ≠ 36 && continuesIdentifier c := all_takeWhile
  rw [isTag,ha,Bool.true_and,Bool.not_eq_true']
  cases l with
  | nil => rfl
  | cons c l =>
    rw [tagOf,takeWhile_cons]
    split_ifs
    · exact h
    · rfl

theorem getLast?_cons_or (b : U8) (l : Bytes) (before : Option U8) :
    (b::l).getLast?.or before = l.getLast?.or (some b) := by
  rw [List.getLast?_cons]
  cases l.getLast? <;> rfl

section Tokens
variable {p : Option U8} {fuel : ℕ} {l : Bytes}

theorem scan_literal {lit : Bytes} (hli : Literal lit) (hl : l.head? ≠ some 39)
    (h : scanSemicolon fuel (some 39) l) : scanSemicolon (fuel+1) p (39::(lit++l)) := by
  rcases skipLiteral_append hli hl with hs | hs
  · simp [scanSemicolon,hs]
  · simp [scanSemicolon,hs,h]

theorem scan_quoted {name : Bytes} (hn : Quoted name) (hl : l.head? ≠ some 34)
    (h : scanSemicolon fuel (some 34) l) : scanSemicolon (fuel+1) p (34::(name++l)) := by
  simp [scanSemicolon,skipQuotedIdentifier_append hn hl,h]

theorem scan_block {body : Bytes} (hb : Closes 1 body) (h : scanSemicolon fuel (some 47) l) :
    scanSemicolon (fuel+1) p (47::42::(body++l)) := by
  simp [scanSemicolon,skipBlockComment_closes hb,h]

theorem scan_dash (l : Bytes) : scanSemicolon (fuel+1) p (45::45::l) =
    scanSemicolon fuel (some 45) (l.dropWhile (· ≠ 10)) := by
  simp [scanSemicolon]

theorem scan_line {body : Bytes} (hb : ∀ c ∈ body, c ≠ 10)
    (h : scanSemicolon fuel (some 10) l) : scanSemicolon (fuel+2) p (45::45::(body++10::l)) := by
  rw [scan_dash,dropWhile_line hb]
  simp [scanSemicolon,h]

theorem scan_line_cr {body : Bytes} (hb : ∀ c ∈ body, c ≠ 10) (hl : l.head? = some 10)
    (h : scanSemicolon fuel (some 13) l) : scanSemicolon (fuel+1) p (45::45::(body++13::l)) := by
  cases l with
  | nil => cases hl
  | cons c l =>
    have hc : c = 10 := by simpa using hl
    subst hc
    have hcr : ∀ c ∈ body++[13], c ≠ 10 := by
      intro c hc
      rcases mem_append.1 hc with hc | hc
      · exact hb c hc
      · rw [mem_singleton.1 hc]
        decide
    have ha : body++13::10::l = (body++[13])++10::l := by simp
    rw [scan_dash,ha,dropWhile_line hcr,scanSemicolon_before (by simp) (some 45) (some 13)]
    exact h

theorem scan_dollar {tag body : Bytes} (hp : p.any continuesIdentifier = false) (ht : isTag tag)
    (hf : ∀ k < body.length, ¬(36::tag++[36]) <+: (body++(36::tag++[36])).drop k)
    (h : scanSemicolon fuel (some 36) l) :
    scanSemicolon (fuel+1) p (36::(tag++36::(body++((36::tag++[36])++l)))) := by
  have hs := skipDollarQuoted_append (by simp) hf l
  simp only [cons_append,append_assoc,nil_append] at hs
  have hd : (tag++36::(body++((36::tag++[36])++l))).head?.any
      (fun c => 48 ≤ c && c ≤ 57) = false := by
    cases tag with
    | nil => rfl
    | cons c tag =>
      simp only [isTag,Bool.and_eq_true,Bool.not_eq_true'] at ht
      exact ht.2
  rw [scanSemicolon]
  simp only [takeWhile_tag ht,drop_left,hd,hp]
  simp [hs,h]

theorem scan_byte {b : U8} (hq : b ≠ 39) (hd : b ≠ 34) (hli : b = 45 → l.head? ≠ some 45)
    (hbl : b = 47 → l.head? ≠ some 42)
    (hdo : b = 36 → p.any continuesIdentifier ∨
      ∀ tag after, l = tag++36::after → isTag tag = false)
    (h : scanSemicolon fuel (some b) l) : scanSemicolon (fuel+1) p (b::l) := by
  have hl : ¬(b = 45 ∧ l.head? = some 45) := fun ⟨hb,hr⟩ => hli hb hr
  have hk : ¬(b = 47 ∧ l.head? = some 42) := fun ⟨hb,hr⟩ => hbl hb hr
  rw [scanSemicolon]
  simp only [if_neg hq,if_neg hd,if_neg hl,if_neg hk,h]
  split_ifs with hs hi hon ho
  · rfl
  · rfl
  · -- a tag is found, though the dollar opens no quote
    exfalso
    have hno := (hdo hon).resolve_left fun hp => hi ⟨hon,hp⟩
    obtain ⟨after,ha⟩ := found_tag ho.1
    have ht := hno _ after ha
    rw [isTag_tagOf (by simpa using ho.2)] at ht
    cases ht
  · rfl
  · rfl

theorem scan_word {word : Bytes} (hw : word.all continuesIdentifier)
    (hp : word.head? = some 36 → p.any continuesIdentifier)
    (h : scanSemicolon fuel (word.getLast?.or p) l) :
    scanSemicolon (word.length+fuel) p (word++l) := by
  induction word generalizing p with
  | nil => simpa using h
  | cons c word ih =>
    obtain ⟨hc,hw⟩ := by simpa only [all_cons,Bool.and_eq_true] using hw
    have hne : c ≠ 39 ∧ c ≠ 34 ∧ c ≠ 45 ∧ c ≠ 47 := by
      grind [continuesIdentifier,isAsciiAlphanumeric]
    rw [length_cons,Nat.add_right_comm]
    refine scan_byte hne.1 hne.2.1 (fun hb => absurd hb hne.2.2.1) (fun hb => absurd hb hne.2.2.2)
      (fun hb => .inl (hp (by rw [hb]; rfl))) (ih hw (fun _ => hc) ?_)
    rwa [getLast?_cons_or] at h

end Tokens

section Apart
variable {p q : Option U8} {l r tok rest : Bytes}

theorem Apart.left (h : Apart p (l++r)) : Apart p l := by
  intro before tag after hl ht hle
  exact h before tag (after++r) (by simp [hl]) ht hle

theorem Apart.drop (h : Apart p (tok++rest))
    (hq : q.any continuesIdentifier → (tok.getLast?.or p).any continuesIdentifier)
    (hl : ∀ l x, rest = l++36::x → Lexed 36 l → Lexed 36 (tok++l)) : Apart q rest := by
  intro l tag after hr ht hle
  have ha := h (tok++l) tag after (by simp [hr]) ht (hl l _ hr hle)
  rw [getLast?_append,Option.or_assoc] at ha
  cases hla : l.getLast? with
  | none =>
    rw [hla,Option.none_or] at ha
    rw [Option.none_or,Bool.eq_false_iff]
    exact fun hc => Bool.eq_false_iff.1 ha (hq hc)
  | some c => simpa [hla] using ha

end Apart

theorem scanSemicolon_lexed {p : Option U8} {before : Bytes} (h : Lexed 59 before)
    (ht : tidy (before++[59])) (ha : Apart p before) (post : Bytes) {fuel : ℕ}
    (hf : (before++59::post).length ≤ fuel) : scanSemicolon fuel p (before++59::post) := by
  -- each token costs one unit of fuel or one a byte, a line comment two, and has at least as many bytes
  induction h generalizing fuel p with
  | nil =>
    cases fuel with
    | zero => simp at hf
    | succ fuel => simp [scanSemicolon]
  | @word b body rest hb hbo hr _ ih =>
    rw [append_assoc,length_append] at hf
    obtain ⟨fuel,rfl⟩ := Nat.exists_eq_add_of_le (Nat.le_of_add_right_le hf)
    simp only [startsIdentifier,Bool.and_eq_true,decide_eq_true_eq] at hb
    rw [append_assoc]
    refine scan_word (by simp [hb.1.1,hbo]) (fun h36 => absurd (Option.some.inj h36) hb.1.2)
      (ih ?_ (ha.drop id ?_) (Nat.le_of_add_le_add_left hf))
    · rw [append_assoc] at ht
      exact tidy_append ht
    · rintro l x rfl hl
      refine .word (by simp [startsIdentifier,hb]) hbo ?_ hl
      rwa [append_assoc,cons_append,head_append_cons 36 l _ []] at hr
  | @number b body rest hb hbo _ ih =>
    rw [append_assoc,length_append] at hf
    obtain ⟨fuel,rfl⟩ := Nat.exists_eq_add_of_le (Nat.le_of_add_right_le hf)
    have hc : continuesIdentifier b ∧ b ≠ 36 := by grind [continuesIdentifier,isAsciiAlphanumeric]
    have hbc : body.all continuesIdentifier := by
      rw [all_eq_true] at hbo ⊢
      exact fun c hcb => (Bool.and_eq_true_iff.1 (hbo c hcb)).2
    rw [append_assoc]
    refine scan_word (by simp [hc.1,hbc]) (fun h36 => absurd (Option.some.inj h36) hc.2)
      (ih ?_ (ha.drop id ?_) (Nat.le_of_add_le_add_left hf))
    · rw [append_assoc] at ht
      exact tidy_append ht
    · exact fun l _ _ hl => .number hb hbo hl
  | @byte b rest hq hd hc hl hbl hdo _ ih =>
    cases fuel with
    | zero => simp at hf
    | succ fuel =>
      have hh := head_append_cons 59 rest post []
      refine scan_byte hq hd (fun hb => hh.trans_ne (hl hb)) (fun hb => hh.trans_ne (hbl hb))
        (fun hb => .inr ?_) (ih (tidy_cons ht).2.2 (@Apart.drop p (some b) [b] rest ha id ?_) (by simpa using hf))
      · intro tag after hre
        by_contra htg
        obtain ⟨after,rfl⟩ := not_opens hre (by simpa using htg)
        exact htg (hdo hb tag (after++[59]) (by simp))
      · rintro l x rfl hle
        simp only [append_assoc,cons_append] at hl hbl hdo
        rw [head_append_cons 36 l _ []] at hl hbl
        refine .byte hq hd hc hl hbl (fun hb tag after hta => ?_) hle
        refine hdo hb tag (after++(x++[59])) ?_
        have := congrArg (·++(x++[59])) hta
        simpa using this
  | @literal lit rest hli hr _ ih =>
    cases fuel with
    | zero => simp at hf
    | succ fuel =>
      rw [cons_append,append_assoc] at ht hf ⊢
      refine scan_literal hli ?_ (ih (tidy_append (tidy_cons ht).2.2)
        (@Apart.drop p _ (39::lit) rest ha (fun hc => absurd hc (by decide)) ?_) ?_)
      · rwa [head_append_cons 59 rest post []]
      · rintro l x rfl hl
        refine .literal hli ?_ hl
        rwa [append_assoc,cons_append,head_append_cons 36 l _ []] at hr
      · simp only [length_cons,length_append] at hf ⊢
        omega
  | @quoted name rest hn hr _ ih =>
    cases fuel with
    | zero => simp at hf
    | succ fuel =>
      rw [cons_append,append_assoc] at ht hf ⊢
      refine scan_quoted hn ?_ (ih (tidy_append (tidy_cons ht).2.2)
        (@Apart.drop p _ (34::name) rest ha (fun hc => absurd hc (by decide)) ?_) ?_)
      · rwa [head_append_cons 59 rest post []]
      · rintro l x rfl hl
        refine .quoted hn ?_ hl
        rwa [append_assoc,cons_append,head_append_cons 36 l _ []] at hr
      · simp only [length_cons,length_append] at hf ⊢
        omega
  | @dollar tag body rest htg hfi _ ih =>
    cases fuel with
    | zero => simp at hf
    | succ fuel =>
      have hass : ∀ l, 36::(tag++36::(body++((36::tag++[36])++rest)))++l =
          36::(tag++36::(body++((36::tag++[36])++(rest++l)))) := by simp
      have hp : p.any continuesIdentifier = false := ha [] tag _ rfl htg .nil
      rw [hass] at ht hf ⊢
      have hta := tidy_append (tidy_append (tidy_cons (tidy_append (tidy_cons ht).2.2)).2.2)
      refine scan_dollar hp htg hfi (ih hta
        (@Apart.drop p _ (36::(tag++36::(body++36::tag))++[36]) rest (by simpa using ha) ?_ ?_) ?_)
      · rw [getLast?_concat]
        exact id
      · intro l _ _ hl
        simpa using Lexed.dollar htg hfi hl
      · simp only [length_cons,length_append] at hf ⊢
        omega
  | @line body b rest hbo hb _ ih =>
    have har : Apart (some b) rest := by
      refine @Apart.drop p _ (45::45::(body++[b])) rest (by simpa using ha) ?_ ?_
      · rcases hb with rfl | rfl <;> exact fun hc => absurd hc (by decide)
      · intro l _ _ hl
        simpa using Lexed.line hbo hb hl
    rw [cons_append,cons_append,append_assoc,cons_append] at ht hf ⊢
    have hta : tidy (b::(rest++[59])) := tidy_append (tidy_cons (tidy_cons ht).2.2).2.2
    obtain ⟨_,hcr,hre⟩ := tidy_cons hta
    have hlf : ∀ c ∈ body, c ≠ 10 := fun c hc => (hbo c hc).1
    simp only [length_cons,length_append] at hf
    rcases hb with rfl | rfl
    · obtain ⟨fuel,rfl⟩ := Nat.exists_eq_add_of_le' (show 2 ≤ fuel by omega)
      refine scan_line hlf (ih hre har ?_)
      simp only [length_cons,length_append]
      omega
    · obtain ⟨fuel,rfl⟩ := Nat.exists_eq_add_of_le' (show 1 ≤ fuel by omega)
      have hne : (rest++59::post).head? = some 10 := by
        rw [head_append_cons 59 rest post []]
        exact hcr rfl
      refine scan_line_cr hlf hne (ih hre har ?_)
      simp only [length_cons,length_append]
      omega
  | @block body rest hbo _ ih =>
    cases fuel with
    | zero => simp at hf
    | succ fuel =>
      rw [cons_append,cons_append,append_assoc] at ht hf ⊢
      refine scan_block hbo (ih (tidy_append (tidy_cons (tidy_cons ht).2.2).2.2)
        (@Apart.drop p _ (47::42::body) rest ha (fun hc => absurd hc (by decide))
          fun l _ _ hl => .block hbo hl) ?_)
      simp only [length_cons,length_append] at hf ⊢
      omega

end Scan

section Keywords
variable {keyword text after : Bytes}

theorem isWordByte_toAsciiLowercase : ∀ b, isWordByte (toAsciiLowercase b) = isWordByte b := by
  grind [isWordByte,isAsciiAlphanumeric,toAsciiLowercase]

theorem all_isWordByte_of_eqIgnoreAsciiCase {a b : Bytes} (h : eqIgnoreAsciiCase a b)
    (hb : b.all isWordByte) : a.all isWordByte := by
  have hm : ∀ l : Bytes, (l.map toAsciiLowercase).all isWordByte = l.all isWordByte := by
    intro l
    rw [all_map]
    congr 1
    funext b
    exact isWordByte_toAsciiLowercase b
  have heq : a.map toAsciiLowercase = b.map toAsciiLowercase := by simpa [eqIgnoreAsciiCase] using h
  rw [← hm a,heq,hm b]
  exact hb

theorem Starts.all_word (h : Starts keyword after) (hk : keyword.all isWordByte) :
    (after.take keyword.length).all isWordByte := all_isWordByte_of_eqIgnoreAsciiCase h.word hk

theorem Starts.length_le (h : Starts keyword after) : keyword.length ≤ after.length := by
  have heq : (after.take keyword.length).map toAsciiLowercase = keyword.map toAsciiLowercase := by
    simpa [eqIgnoreAsciiCase] using h.word
  have hl := congrArg List.length heq
  simp only [length_map,length_take] at hl
  omega

theorem Starts.exists_cons (h : Starts keyword after) (hk : keyword.all isWordByte)
    (hne : keyword ≠ []) : ∃ w rest, isWordByte w ∧ after = w::rest := by
  cases after with
  | nil =>
    have hl := h.length_le
    exact absurd (List.length_eq_zero_iff.1 (Nat.le_zero.1 hl)) hne
  | cons w rest =>
    refine ⟨w,rest,?_,rfl⟩
    have ha := h.all_word hk
    obtain ⟨k,l,rfl⟩ := exists_cons_of_ne_nil hne
    simp only [length_cons,take_succ_cons,all_cons,Bool.and_eq_true] at ha
    exact ha.1

theorem Starts.takeWhile_eq (h : Starts keyword after) (hk : keyword.all isWordByte) :
    after.takeWhile isWordByte = after.take keyword.length := by
  have hs := take_append_drop keyword.length after
  have ha := h.all_word hk
  have he := h.ends
  conv_lhs => rw [← hs]
  rw [takeWhile_append_of_pos (by simpa using ha)]
  cases hd : after.drop keyword.length with
  | nil => simp
  | cons b rest =>
    rw [hd] at he
    have hb : isWordByte b = false := he
    simp [hb]

theorem firstStatementKeyword_leads {gap : Bytes} (hg : Gap gap) (h : Starts keyword after)
    (hk : keyword.all isWordByte) (hne : keyword ≠ []) (ht : tidy (gap++after)) :
    firstStatementKeyword (gap++after) = some (after.take keyword.length) := by
  obtain ⟨w,rest,hw,rfl⟩ := h.exists_cons hk hne
  have hwo : (w::rest).take keyword.length ≠ [] := by
    obtain ⟨k,l,rfl⟩ := exists_cons_of_ne_nil hne
    simp
  simp only [firstStatementKeyword,skipBlank_gap hg hw ht,Option.bind_some,h.takeWhile_eq hk,
    if_neg hwo]

theorem matchesAt_iff {before : Option U8} :
    matchesAt before after keyword ↔ Starts keyword after ∧ before.any isWordByte = false := by
  simp only [matchesAt,Bool.and_eq_true,Bool.not_eq_true']
  exact ⟨fun ⟨⟨hw,hb⟩,he⟩ => ⟨⟨hw,he⟩,hb⟩,fun ⟨⟨hw,he⟩,hb⟩ => ⟨⟨hw,hb⟩,he⟩⟩

theorem containsTokenFrom_starts {before : Option U8} {l : Bytes} (h : Starts keyword after)
    (hk : keyword.all isWordByte) (hne : keyword ≠ [])
    (hb : (l.getLast?.or before).any isWordByte = false) :
    containsTokenFrom keyword before (l++after) := by
  induction l generalizing before with
  | nil =>
    obtain ⟨w,rest,_,rfl⟩ := h.exists_cons hk hne
    have hm : matchesAt before (w::rest) keyword := matchesAt_iff.2 ⟨h,hb⟩
    rw [nil_append,containsTokenFrom,hm]
    rfl
  | cons b l ih =>
    rw [getLast?_cons_or] at hb
    simp [containsTokenFrom,ih hb]

theorem containsTokenCi_of_occurs (h : Occurs keyword text) (hk : keyword.all isWordByte)
    (hne : keyword ≠ []) : containsTokenCi text keyword := by
  obtain ⟨l,after,rfl,hl,hs⟩ := h
  rw [containsTokenCi,containsTokenFrom_starts hs hk hne (by simpa using hl)]
  simpa using hne

theorem Closes.getLast {d : ℕ} {body : Bytes} (h : Closes d body) (hd : 0 < d) :
    body.getLast? = some 47 := by
  induction h with
  | done => exact absurd hd (Nat.lt_irrefl 0)
  | nest _ ih =>
    rw [List.getLast?_cons,List.getLast?_cons,ih (Nat.succ_pos _)]
    rfl
  | @close d rest hr ih =>
    cases d with
    | zero =>
      cases hr
      rfl
    | succ d =>
      rw [List.getLast?_cons,List.getLast?_cons,ih (Nat.succ_pos _)]
      rfl
  | byte _ _ _ ih =>
    rw [List.getLast?_cons,ih (Nat.succ_pos _)]
    rfl

theorem Gap.getLast {gap : Bytes} (h : Gap gap) {before : Option U8}
    (hb : before.any isWordByte = false) : (gap.getLast?.or before).any isWordByte = false := by
  induction h generalizing before with
  | nil => exact hb
  | @space b rest hs _ ih =>
    rw [getLast?_cons_or]
    refine ih ?_
    have hno : ∀ b, isSpace b → isWordByte b = false := by
      grind [isSpace,isWordByte,isAsciiAlphanumeric]
    exact hno b hs
  | @line body b rest _ he _ ih =>
    have hno : (some b).any isWordByte = false := by rcases he with rfl | rfl <;> rfl
    rw [getLast?_cons_or,getLast?_cons_or,List.getLast?_append,Option.or_assoc,getLast?_cons_or]
    exact ih hno
  | @block body rest hbo _ ih =>
    rw [getLast?_cons_or,getLast?_cons_or,List.getLast?_append,Option.or_assoc,
      hbo.getLast Nat.one_pos]
    exact ih rfl

theorem trimStatementEnd_append {l rest : Bytes} {w : U8} (hw : isWordByte w) :
    ∃ rest', trimStatementEnd (l++w::rest) = l++w::rest' := by
  have hs : ∀ w, isWordByte w → (w = 59 || isAsciiWhitespace w) = false := by
    grind [isWordByte,isAsciiAlphanumeric,isAsciiWhitespace]
  have hr : (l++w::rest).reverse = rest.reverse++w::l.reverse := by simp
  rw [trimStatementEnd,hr,dropWhile_append]
  split_ifs with he
  · refine ⟨[],?_⟩
    rw [dropWhile_cons_of_neg (by simpa using hs w hw)]
    simp
  · refine ⟨(rest.reverse.dropWhile fun b => b = 59 || isAsciiWhitespace b).reverse,?_⟩
    simp

theorem Leads.occurs (h : Leads keyword text) : Occurs keyword text := by
  cases h with
  | first gap after hg hs ht =>
    have hl : (gap.getLast?.or none).any isWordByte = false := hg.getLast rfl
    rw [Option.or_none] at hl
    exact ⟨gap,after,ht,hl,hs⟩
  | later before gap after hle hg hs ht =>
    refine ⟨before++59::gap,after,by simp [ht],?_,hs⟩
    rw [List.getLast?_append,getLast?_cons_or]
    exact hg.getLast rfl

theorem leadingStatementKeywordMatches_of_leads {keywords : List Bytes} (h : Leads keyword text)
    (hm : keyword ∈ keywords) (hk : keyword.all isWordByte) (hne : keyword ≠ [])
    (ht : tidy text) (ha : Apart none text) : leadingStatementKeywordMatches text keywords := by
  have han : keywords.any (containsTokenCi text) :=
    any_eq_true.2 ⟨keyword,hm,containsTokenCi_of_occurs h.occurs hk hne⟩
  cases h with
  | first gap after hg hs hte =>
    subst hte
    have hf := firstStatementKeyword_leads hg hs hk hne ht
    have hwo : keywords.any (eqIgnoreAsciiCase (after.take keyword.length)) :=
      any_eq_true.2 ⟨keyword,hm,hs.word⟩
    rw [leadingStatementKeywordMatches,hf,Option.any_some,hwo]
    rfl
  | later before gap after hl hg hs hte =>
    subst hte
    have hse : hasTopLevelSemicolon (trimStatementEnd (before++59::(gap++after))) := by
      obtain ⟨w,rest,hw,rfl⟩ := hs.exists_cons hk hne
      have has : before++59::(gap++w::rest) = (before++59::gap)++w::rest := by simp
      obtain ⟨rest',htr⟩ := @trimStatementEnd_append (before++59::gap) rest _ hw
      rw [has,htr,append_assoc]
      exact scanSemicolon_lexed hl (tidy_take (by decide) ht) ha.left _ le_rfl
    rw [leadingStatementKeywordMatches,hse,han]
    simp

def flag (kind : KeywordKind) (flags : QueryKeywordFlags) : Bool :=
  match kind with
  | .subscription => flags.subscription
  | .functionState => flags.functionState
  | .tempObject => flags.tempObject

theorem flag_set {kind other : KeywordKind} (flags : QueryKeywordFlags)
    (h : flag kind flags ∨ other = kind) : flag kind (flags.set other) := by
  rcases h with h | rfl
  · cases other <;> cases kind <;> first | exact h | rfl
  · cases other <;> rfl

theorem flag_scanKeywords {kind : KeywordKind} {flags : QueryKeywordFlags} (h : flag kind flags)
    (skip : ℕ) (before : Option U8) (l : Bytes) : flag kind (scanKeywords skip before flags l) := by
  induction l generalizing skip before flags with
  | nil =>
    cases skip <;> exact h
  | cons b l ih =>
    cases skip with
    | succ skip => exact ih h _ _
    | zero =>
      simp only [scanKeywords]
      split
      · exact ih (flag_set _ (.inl h)) _ _
      · exact ih h _ _

theorem Starts.unique {other : Bytes} (h : Starts keyword after) (ho : Starts other after)
    (hk : keyword.all isWordByte) (hok : other.all isWordByte) :
    other.map toAsciiLowercase = keyword.map toAsciiLowercase := by
  have hl : after.take keyword.length = after.take other.length :=
    (h.takeWhile_eq hk).symm.trans (ho.takeWhile_eq hok)
  have hw := h.word
  have how := ho.word
  simp only [eqIgnoreAsciiCase,decide_eq_true_eq] at hw how
  rw [← how,← hl,hw]

theorem keywords_word : ∀ k ∈ keywords, k.1.all isWordByte ∧ k.1 ≠ [] := by decide

theorem scanKeywords_starts {kind : KeywordKind} {l : Bytes} {skip : ℕ} {before : Option U8}
    {flags : QueryKeywordFlags} (h : Starts keyword after) (hk : keyword.all isWordByte)
    (hsu : ∀ k ∈ keywords, k.1.map toAsciiLowercase = keyword.map toAsciiLowercase → k.2 = kind)
    (hme : (keyword,kind) ∈ keywords)
    (hb : (l.getLast?.or before).any isWordByte = false) (hsk : skip ≤ l.length) :
    flag kind (scanKeywords skip before flags (l++after)) := by
  have hne : keyword ≠ [] := (keywords_word _ hme).2
  induction l generalizing skip before flags with
  | nil =>
    obtain ⟨w,rest,_,rfl⟩ := h.exists_cons hk hne
    have hz : skip = 0 := Nat.le_zero.1 hsk
    subst hz
    have hm : matchesAt before (w::rest) keyword := matchesAt_iff.2 ⟨h,hb⟩
    simp only [nil_append,scanKeywords]
    split
    · next token other hf =>
      have hfo := List.find?_some hf
      have hin := List.mem_of_find?_eq_some hf
      have hs := (matchesAt_iff.1 hfo).1
      have heq := h.unique hs hk (keywords_word _ hin).1
      exact flag_scanKeywords (flag_set _ (.inr (hsu _ hin heq))) _ _ _
    · next hf =>
      have hno := List.find?_eq_none.1 hf _ hme
      exact absurd hm hno
  | cons b l ih =>
    rw [getLast?_cons_or] at hb
    cases skip with
    | succ skip => exact ih hb (Nat.le_of_succ_le_succ hsk)
    | zero =>
      simp only [cons_append,scanKeywords]
      split
      · next token other hf =>
        refine ih hb ?_
        have hin := List.mem_of_find?_eq_some hf
        have hfo := List.find?_some hf
        have ha := (matchesAt_iff.1 hfo).1.all_word (keywords_word _ hin).1
        -- a match that reached past `l` would make the byte before the word a word byte
        by_contra hlo
        have hw : ∀ c ∈ b::l, isWordByte c := by
          intro c hc
          refine all_eq_true.1 ha c ?_
          have hle : (b::l).length ≤ token.length := by
            rw [length_cons]
            omega
          rw [← cons_append,take_append,take_of_length_le hle]
          exact mem_append_left _ hc
        cases hl : l.getLast? with
        | none =>
          rw [hl] at hb
          exact absurd (hw b mem_cons_self) (by simpa using hb)
        | some c =>
          rw [hl] at hb
          have hc := List.mem_of_getLast? hl
          exact absurd (hw c (mem_cons_of_mem _ hc)) (by simpa using hb)
      · exact ih hb (Nat.zero_le _)

theorem queryKeywordFlags_of_occurs {kind : KeywordKind} (h : Occurs keyword text)
    (hk : keyword.all isWordByte)
    (hsu : ∀ k ∈ keywords, k.1.map toAsciiLowercase = keyword.map toAsciiLowercase → k.2 = kind)
    (hm : (keyword,kind) ∈ keywords) : flag kind (queryKeywordFlags text) := by
  obtain ⟨l,after,rfl,hl,hs⟩ := h
  exact scanKeywords_starts hs hk hsu hm (by simpa using hl) (Nat.zero_le _)

end Keywords

theorem prefilter_listen {text : Bytes} (h : Occurs (ascii "listen") text) :
    (queryKeywordFlags text).subscription :=
  @queryKeywordFlags_of_occurs _ _ .subscription h (by decide) (by decide) (by decide)

theorem prefilter_unlisten {text : Bytes} (h : Occurs (ascii "unlisten") text) :
    (queryKeywordFlags text).subscription :=
  @queryKeywordFlags_of_occurs _ _ .subscription h (by decide) (by decide) (by decide)

theorem prefilter_deallocate {text : Bytes} (h : Leads (ascii "deallocate") text) (ht : tidy text)
    (ha : Apart none text) : mightContainSessionStateCommand text :=
  leadingStatementKeywordMatches_of_leads h (by simp) (by decide) (by decide) ht ha

theorem prefilter_discard {text : Bytes} (h : Leads (ascii "discard") text) (ht : tidy text)
    (ha : Apart none text) : mightContainSessionStateCommand text :=
  leadingStatementKeywordMatches_of_leads h (by simp) (by decide) (by decide) ht ha

end Lexical
end PgBattery
