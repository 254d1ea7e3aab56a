import Mathlib

/-! PostgreSQL's scanner as an automaton over the characters of a script, and the statements it separates:
a semicolon ends one outside of quotes, comments and parentheses. -/
namespace PgBattery
namespace SqlScript
open List

section Scanner

def horizontal (c : Char) : Bool := c = ' ' || c = '\t' || c = '\x0b' || c = '\x0c'

def newline (c : Char) : Bool := c = '\n' || c = '\r'

def blank (c : Char) : Bool := horizontal c || newline c

def identStart (c : Char) : Bool := c.isAlpha || c = '_' || 128 ≤ c.toNat

def tagCont (c : Char) : Bool := identStart c || c.isDigit

def identCont (c : Char) : Bool := tagCont c || c = '$'

inductive Mode
  /-- Between tokens, in a number or in an operator. -/
  | other
  /-- In an identifier; an `e` or `E` alone makes the quote after it one with backslashes. -/
  | word (escapes : Bool)
  | dash
  | slash
  /-- After a dollar sign and what may be the tag of a dollar quote. -/
  | dollar (tag : List Char)
  /-- In a dollar quote, with what was read since the last dollar sign. -/
  | body (tag : List Char) (seen : Option (List Char))
  | quote
  | escape
  | backslash
  /-- After a quote with backslashes: one in the next line, past blanks and comments, continues it. -/
  | ended
  | gap (crossed : Bool)
  | gapDash (crossed : Bool)
  | gapLine (crossed : Bool)
  | ident
  | line
  /-- In a comment within `depth` others, after the character `last`. -/
  | block (depth : ℕ) (last : Char)
  deriving DecidableEq, Repr

def start (c : Char) : Mode :=
  if c = '\'' then .quote
  else if c = '"' then .ident
  else if c = '$' then .dollar []
  else if c = '-' then .dash
  else if c = '/' then .slash
  else if identStart c then .word (c = 'e' || c = 'E')
  else .other

/-- After a quote with backslashes; `crossed` is whether a line has ended since. -/
def afterQuote (crossed : Bool) (c : Char) : Mode :=
  if horizontal c then .gap crossed
  else if newline c then .gap true
  else if c = '-' then .gapDash crossed
  else start c

def Mode.next : Mode → Char → Mode
  | other, c => start c
  | word escapes, c =>
    if identCont c then .word false
    else if escapes && c = '\'' then .escape
    else start c
  | dash, c => if c = '-' then .line else start c
  | slash, c => if c = '*' then .block 0 ' ' else start c
  | dollar [], c =>
    if c = '$' then .body [] none else if identStart c then .dollar [c] else start c
  | dollar tag, c =>
    if c = '$' then .body tag none
    else if tagCont c then .dollar (tag++[c])
    else if (tag = ['e'] || tag = ['E']) && c = '\'' then .escape
    else start c
  | body tag none, c => .body tag (if c = '$' then some [] else none)
  | body tag (some seen), c =>
    if c = '$' then if seen = tag then .other else .body tag (some [])
    else .body tag (some (seen++[c]))
  | quote, c => if c = '\'' then .other else .quote
  | escape, c => if c = '\'' then .ended else if c = '\\' then .backslash else .escape
  | backslash, _ => .escape
  | ended, c => if c = '\'' then .escape else afterQuote false c
  | gap crossed, c => if c = '\'' then if crossed then .escape else .quote else afterQuote crossed c
  | gapDash crossed, c => if c = '-' then .gapLine crossed else start c
  | gapLine crossed, c => if newline c then .gap true else .gapLine crossed
  | ident, c => if c = '"' then .other else .ident
  | line, c => if newline c then .other else .line
  | block depth last, c =>
    if last = '/' && c = '*' then .block (depth+1) ' '
    else if last = '*' && c = '/' then
      match depth with
      | 0 => .other
      | depth+1 => .block depth ' '
    else .block depth c

def Mode.code : Mode → Bool
  | other | word _ | dash | slash | dollar _ | ended | gap _ | gapDash _ => true
  | body _ _ | quote | escape | backslash | gapLine _ | ident | line | block _ _ => false

def Mode.mayEnd : Mode → Bool
  | line | gapLine _ => true
  | m => m.code

def paren (c : Char) : ℤ := if c = '(' then 1 else if c = ')' then -1 else 0

structure Scan where
  mode : Mode
  depth : ℤ
  done : List (List Char)
  cur : List Char
  deriving DecidableEq, Repr

def closed (cur : List Char) : List (List Char) :=
  if cur.rdropWhile blank = [] then [] else [cur.rdropWhile blank]

namespace Scan

def fresh : Scan := ⟨.other,0,[],[]⟩

def whole (s : Scan) : Bool := s.mode.code && s.depth = 0

def step (s : Scan) (c : Char) : Scan :=
  if s.whole && c = ';' then ⟨.other,0,s.done++closed s.cur,[]⟩
  else if s.mode = .other && s.cur = [] && blank c then s
  else ⟨s.mode.next c,s.depth+(if s.mode.code then paren c else 0),s.done,s.cur++[c]⟩

def finish (s : Scan) : Option (List (List Char)) :=
  if s.mode.mayEnd then some (s.done++closed s.cur) else none

end Scan

def scan (text : List Char) : Scan := text.foldl Scan.step .fresh

def read (text : List Char) : Option (List (List Char)) := (scan text).finish

end Scanner

section Reading
variable {s : Scan} {text rest : List Char}

theorem foldl_done (before : List (List Char)) (s : Scan) (text : List Char) :
    text.foldl Scan.step ⟨s.mode,s.depth,before++s.done,s.cur⟩ =
      ⟨(text.foldl Scan.step s).mode,(text.foldl Scan.step s).depth,
        before++(text.foldl Scan.step s).done,(text.foldl Scan.step s).cur⟩ := by
  induction text generalizing s with
  | nil => rfl
  | cons c text ih =>
    have hs : Scan.step ⟨s.mode,s.depth,before++s.done,s.cur⟩ c =
        ⟨(s.step c).mode,(s.step c).depth,before++(s.step c).done,(s.step c).cur⟩ := by
      unfold Scan.step
      show (if s.whole && c = ';' then _ else if s.mode = .other && s.cur = [] && blank c then _ else _) = _
      split
      · simp
      · split <;> rfl
    rw [foldl_cons,hs,ih,foldl_cons]

theorem step_semicolon (h : s.whole) :
    s.step ';' = ⟨Scan.fresh.mode,Scan.fresh.depth,(s.done++closed s.cur)++Scan.fresh.done,Scan.fresh.cur⟩ := by
  have hc : (s.whole && decide (';' = ';')) := by rw [h]; rfl
  rw [Scan.step,if_pos hc]
  show Scan.mk _ _ _ _ = ⟨.other,0,_++[],[]⟩
  rw [append_nil]

theorem mayEnd_of_whole (h : s.whole) : s.mode.mayEnd := by
  have hc : s.mode.code := (Bool.and_eq_true_iff.1 h).1
  cases hm : s.mode <;> rw [hm] at hc <;> first | rfl | exact hc

theorem read_of_whole (h : (scan text).whole) :
    read text = some ((scan text).done++closed (scan text).cur) := if_pos (mayEnd_of_whole h)

theorem read_append (h : (scan text).whole) (rest : List Char) :
    read (text++ ';'::rest) = (read rest).map (((scan text).done++closed (scan text).cur)++·) := by
  rw [read,scan,foldl_append,foldl_cons,← scan,step_semicolon h,foldl_done,← scan,Scan.finish,
    read,Scan.finish]
  split
  · simp
  · rfl

theorem step_not_whole (h : s.whole = false) :
    s.step ';' = ⟨s.mode.next ';',s.depth,s.done,s.cur++[';']⟩ := by
  have hb : blank ';' = false := by decide
  rw [Scan.step,h,Bool.false_and,if_neg Bool.false_ne_true,hb,Bool.and_false,if_neg Bool.false_ne_true]
  simp [paren]

theorem step_letter (hc : s.cur ≠ []) :
    s.step 'x' = ⟨s.mode.next 'x',s.depth,s.done,s.cur++['x']⟩ := by
  have hx : decide ('x' = ';') = false := by decide
  rw [Scan.step,hx,Bool.and_false,if_neg Bool.false_ne_true]
  simp [paren,hc]

theorem closed_concat {c : Char} (hc : blank c = false) (cur : List Char) : closed (cur++[c]) = [cur++[c]] := by
  have hd : (cur++[c]).rdropWhile blank = cur++[c] :=
    rdropWhile_concat_neg _ _ _ (by rw [hc]; decide)
  rw [closed,hd,if_neg (append_ne_nil_of_right_ne_nil _ (cons_ne_nil _ _))]

/-- Where a text is not whole, a semicolon ends in a quote or a comment, or ends no statement: a letter
behind it would be of the same one. -/
theorem finish_not_whole (h : s.whole = false) : (s.step ';').finish = none ∨
    ∃ done cur cur', (s.step ';').finish = some (done++[cur]) ∧
      ((s.step ';').step 'x').finish = some (done++[cur']) := by
  have hc : s.cur++[';'] ≠ [] := append_ne_nil_of_right_ne_nil _ (cons_ne_nil _ _)
  have hs : (s.mode.next ';').mayEnd → ((s.mode.next ';').next 'x').mayEnd →
      ∃ done cur cur', (s.step ';').finish = some (done++[cur]) ∧
        ((s.step ';').step 'x').finish = some (done++[cur']) := by
    intro hse hl
    rw [step_not_whole h,step_letter hc]
    refine ⟨s.done,s.cur++[';'],(s.cur++[';'])++['x'],?_,?_⟩
    · rw [Scan.finish,if_pos hse,closed_concat (by decide)]
    · rw [Scan.finish,if_pos hl,closed_concat (by decide)]
  have hn : (s.mode.next ';').mayEnd = false → (s.step ';').finish = none := by
    intro ho
    rw [step_not_whole h,Scan.finish,ho]
    rfl
  cases hm : s.mode with
  | other | dash | slash | ended | line => rw [hm] at hs; exact .inr (hs rfl rfl)
  | word escapes => rw [hm] at hs; cases escapes <;> exact .inr (hs rfl rfl)
  | gap crossed | gapDash crossed | gapLine crossed => rw [hm] at hs; exact .inr (hs rfl rfl)
  | dollar tag =>
    rw [hm] at hs
    have hne : (Mode.dollar tag).next ';' = .other := by
      cases tag with
      | nil => rfl
      | cons c tag => simp [Mode.next,start,tagCont,identStart]
    rw [hne] at hs
    exact .inr (hs rfl rfl)
  | body tag seen => rw [hm] at hn; cases seen <;> exact .inl (hn rfl)
  | quote | escape | backslash | ident => rw [hm] at hn; exact .inl (hn rfl)
  | block depth last =>
    rw [hm] at hn
    have hne : (Mode.block depth last).next ';' = .block depth ';' := by simp [Mode.next]
    rw [hne] at hn
    exact .inl (hn rfl)

theorem whole_of_read {l : List (List Char)} (h : ∀ rest, read (text++ ';'::rest) = (read rest).map (l++·)) :
    (scan text).whole := by
  by_contra ho
  rw [Bool.not_eq_true] at ho
  have he : ((scan text).step ';').finish = some (l++[]) := by
    have hr := h []
    rw [read,scan,foldl_append] at hr
    exact hr
  have hl : (((scan text).step ';').step 'x').finish = some (l++[['x']]) := by
    have hr := h ['x']
    rw [read,scan,foldl_append] at hr
    exact hr
  rcases finish_not_whole ho with hn | ⟨done,cur,cur',he',hl'⟩
  · rw [hn] at he
    cases he
  · rw [he'] at he
    rw [hl'] at hl
    have hle := congrArg List.length (Option.some.inj he)
    have hle' := congrArg List.length (Option.some.inj hl)
    simp only [length_append,length_cons,length_nil] at hle hle'
    omega

end Reading
end SqlScript
end PgBattery
