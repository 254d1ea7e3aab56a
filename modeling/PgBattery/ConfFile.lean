import PgBattery.SqlReply

/-! PostgreSQL's configuration files: what each line assigns, and which of several assignments of a
setting counts. -/
namespace PgBattery
namespace ConfFile
open SqlReply List

section Words

def isBlank (c : Char) : Bool := c = ' ' || c = '\t' || c = '\r'

/-- `[A-Za-z_\200-\377]`: every byte above 127 is a letter. -/
def isLetter (c : Char) : Bool := c.isAlpha || c = '_' || 128 ≤ c.toNat

def isLetterOrDigit (c : Char) : Bool := isLetter c || c.isDigit

def continuesWord (c : Char) : Bool := isLetterOrDigit c || c ∈ ['-','.',':','/']

def isHexDigit (c : Char) : Bool := (hexValue c).isSome

def isIdentifier : Text → Bool
  | [] => false
  | c::w => isLetter c && w.all isLetterOrDigit

def isQualified (w : Text) : Bool :=
  (splitOnce '.' w).any fun parts => isIdentifier parts.1 && isIdentifier parts.2

def isUnquoted : Text → Bool
  | [] => false
  | c::w => isLetter c && w.all continuesWord

def unsigned : Text → Text
  | c::w => if c = '+' ∨ c = '-' then w else c::w
  | [] => []

/-- A sign, decimal or hexadecimal digits, and the letters of a unit. -/
def isInteger (w : Text) : Bool :=
  let w := unsigned w
  (w.head?.any Char.isDigit && (w.dropWhile Char.isDigit).all Char.isAlpha) ||
    (w.take 2 = "0x".toList && ((w.drop 2).head?.any isHexDigit
      && ((w.drop 2).dropWhile isHexDigit).all Char.isAlpha))

def isExponent : Text → Bool
  | [] => true
  | c::w => (c = 'e' || c = 'E') && (unsigned w ≠ [] && (unsigned w).all Char.isDigit)

def isReal (w : Text) : Bool :=
  match (unsigned w).dropWhile Char.isDigit with
  | [] => false
  | c::w => c = '.' && isExponent (w.dropWhile Char.isDigit)

/-- A value that is not quoted. A dotted name is not one. -/
def isBare (w : Text) : Bool := (isUnquoted w && !isQualified w) || isInteger w || isReal w

end Words

section Strings

/-- What stands between the quotes, the opening one read already, and what follows them. -/
def scanQuoted : Text → Option (Text × Text)
  | [] => none
  | [c] => if c = '\'' then some ([],[]) else none
  | c::d::s =>
    if c = '\'' then
      if d = '\'' then (scanQuoted s).map fun r => (c::d::r.1,r.2) else some ([],d::s)
    else if c = '\\' then (scanQuoted s).map fun r => (c::d::r.1,r.2)
    else (scanQuoted (d::s)).map fun r => (c::r.1,r.2)

def isOctal (c : Char) : Bool := '0' ≤ c && c ≤ '7'

def octal (digits : Text) : Char := Char.ofNat (digits.foldl (fun n c => n*8+(c.toNat-48)) 0%256)

def control : Char → Char
  | 'b' => Char.ofNat 8
  | 'f' => Char.ofNat 12
  | 'n' => '\n'
  | 'r' => '\r'
  | 't' => '\t'
  | c => c

/-- `DeescapeQuotedString`. -/
def deescape : Text → Text
  | [] => []
  | [c] => [c]
  | c::d::s =>
    if c = '\'' then d::deescape s
    else if c = '\\' then
      if isOctal d then
        match s with
        | [] => [octal [d]]
        | [e] => if isOctal e then [octal [d,e]] else octal [d]::deescape [e]
        | e::f::s =>
          if isOctal e then
            if isOctal f then octal [d,e,f]::deescape s else octal [d,e]::deescape (f::s)
          else octal [d]::deescape (e::f::s)
      else control d::deescape s
    else c::deescape (d::s)

end Strings

section Lines

def skipBlank (s : Text) : Text := s.dropWhile isBlank

def skipEquals : Text → Text
  | c::s => if c = '=' then skipBlank s else c::s
  | [] => []

def endsBareWord (c : Char) : Bool := isBlank c || c = '#'

/-- The value and what follows it. A bare value runs up to a blank or a comment: a token that ends before
leaves another one behind it, which no line may have. -/
def scanValue : Text → Option (Text × Text)
  | [] => none
  | c::s =>
    if c = '\'' then (scanQuoted s).map fun r => (deescape r.1,r.2)
    else
      let word := (c::s).takeWhile (!endsBareWord ·)
      if isBare word then some (word,(c::s).dropWhile (!endsBareWord ·)) else none

def ends (s : Text) : Bool := (skipBlank s).head?.all (· = '#')

def valueOf (s : Text) : Option Text :=
  (scanValue (skipEquals (skipBlank s))).bind fun r => if ends r.2 then some r.1 else none

/-- The setting a line assigns and its value; a line that is blank, a comment or malformed assigns
nothing. -/
def assignment (line : Text) : Option (Text × Text) :=
  let s := skipBlank line
  let name := s.takeWhile continuesWord
  if isIdentifier name || isQualified name then
    (valueOf (s.dropWhile continuesWord)).map fun value => (name,value)
  else none

def assignments (text : Text) : List (Text × Text) := (lines text).filterMap assignment

/-- `guc_name_compare`. -/
def sameName (a b : Text) : Bool := a.map Char.toLower = b.map Char.toLower

theorem sameName_iff {a b : Text} : sameName a b ↔ a.map Char.toLower = b.map Char.toLower :=
  decide_eq_true_iff

theorem sameName_comm (a b : Text) : sameName a b = sameName b a := decide_eq_decide.2 eq_comm

def lastValue (name : Text) (settings : List (Text × Text)) : Option Text :=
  (settings.filter fun s => sameName s.1 name).getLast?.map Prod.snd

theorem exists_lastValue {name : Text} {settings : List (Text × Text)} {P : Text → Prop}
    (hse : ∃ s ∈ settings, sameName s.1 name)
    (ha : ∀ s ∈ settings, sameName s.1 name → P s.2) :
    ∃ value, lastValue name settings = some value ∧ P value := by
  obtain ⟨s,hs,hn⟩ := hse
  have hne : settings.filter (fun s => sameName s.1 name) ≠ [] :=
    ne_nil_of_mem (mem_filter.2 ⟨hs,hn⟩)
  obtain ⟨last,hla⟩ : ∃ last, (settings.filter fun s => sameName s.1 name).getLast? = some last :=
    ⟨_,List.getLast?_eq_some_getLast hne⟩
  obtain ⟨hm,hl⟩ := mem_filter.1 (List.mem_of_getLast? hla)
  exact ⟨last.2,by rw [lastValue,hla]; rfl,ha last hm hl⟩

def effective (text name : Text) : Option Text := lastValue name (assignments text)

/-- `parse_bool`. -/
def parseBool (value : Text) : Option Bool :=
  let v := value.map Char.toLower
  if v = [] then none
  else if v.isPrefixOf "true".toList ∨ v.isPrefixOf "yes".toList ∨ v = "on".toList ∨ v = ['1'] then some true
  else if v.isPrefixOf "false".toList ∨ v.isPrefixOf "no".toList ∨ v = "of".toList ∨ v = "off".toList ∨ v = ['0']
    then some false
  else none

end Lines

section CarriageReturn

theorem takeWhile_append_stop {p : Char → Bool} {c : Char} (hc : p c = false) (s : Text) :
    (s++[c]).takeWhile p = s.takeWhile p := by
  induction s with
  | nil => simp [hc]
  | cons d s ih =>
    rw [cons_append,takeWhile_cons,takeWhile_cons,ih]

theorem dropWhile_append_stop {p : Char → Bool} {c : Char} (hc : p c = false) (s : Text) :
    (s++[c]).dropWhile p = s.dropWhile p++[c] := by
  induction s with
  | nil => simp [hc]
  | cons d s ih =>
    rw [cons_append,dropWhile_cons,dropWhile_cons,ih]
    split <;> rfl

/-- `t` is `s`, or `s` with a carriage return after it. -/
def Ended (s t : Text) : Prop := t = s ∨ t = s++['\r']

theorem Ended.skipBlank {s t : Text} (h : Ended s t) : Ended (skipBlank s) (skipBlank t) := by
  rcases h with rfl | rfl
  · exact .inl rfl
  · rw [ConfFile.skipBlank,ConfFile.skipBlank,dropWhile_append]
    split
    · next he =>
      rw [List.isEmpty_iff.1 he]
      exact .inl rfl
    · exact .inr rfl

theorem Ended.skipEquals {s t : Text} (h : Ended s t) : Ended (skipEquals s) (skipEquals t) := by
  rcases h with rfl | rfl
  · exact .inl rfl
  · cases s with
    | nil => exact .inr rfl
    | cons c s =>
      rw [cons_append,ConfFile.skipEquals,ConfFile.skipEquals]
      split
      · exact Ended.skipBlank (.inr rfl)
      · exact .inr rfl

theorem ends_of_ended {s t : Text} (h : Ended s t) : ends t = ends s := by
  rcases h with rfl | rfl
  · rfl
  · rw [ends,ends,skipBlank,skipBlank,dropWhile_append]
    split
    · next he =>
      rw [List.isEmpty_iff.1 he]
      rfl
    · next hne =>
      rw [List.head?_append_of_ne_nil _ fun hn => hne (List.isEmpty_iff.2 hn)]

theorem scanQuoted_append : ∀ s : Text,
    scanQuoted (s++['\r']) = (scanQuoted s).map fun r => (r.1,r.2++['\r'])
  | [] => rfl
  | [c] => by
    change scanQuoted [c,'\r'] = _
    rw [scanQuoted,scanQuoted]
    split
    · rfl
    · split <;> rfl
  | c::d::s => by
    have hs := scanQuoted_append s
    have hds := scanQuoted_append (d::s)
    rw [cons_append] at hds
    rw [cons_append,cons_append,scanQuoted,scanQuoted,hs,hds]
    split
    · split
      · simp only [Option.map_map,Function.comp_def]
      · rfl
    · split <;> simp only [Option.map_map,Function.comp_def]

theorem scanValue_append (s : Text) :
    scanValue (s++['\r']) = (scanValue s).map fun r => (r.1,r.2++['\r']) := by
  cases s with
  | nil => rfl
  | cons c s =>
    rw [cons_append,scanValue,scanValue]
    split
    · rw [scanQuoted_append]
      simp only [Option.map_map,Function.comp_def]
    · have hs : (!endsBareWord '\r') = false := rfl
      have ht := @takeWhile_append_stop (!endsBareWord ·) '\r' hs (c::s)
      have hd := @dropWhile_append_stop (!endsBareWord ·) '\r' hs (c::s)
      rw [cons_append] at ht hd
      simp only [ht,hd]
      split <;> rfl

theorem valueOf_of_ended {s t : Text} (h : Ended s t) : valueOf t = valueOf s := by
  rw [valueOf,valueOf]
  rcases h.skipBlank.skipEquals with heq | heq
  · rw [heq]
  · rw [heq,scanValue_append,Option.bind_map]
    refine congrArg _ (funext fun r => ?_)
    have he : ends (r.2++['\r']) = ends r.2 := ends_of_ended (.inr rfl)
    simp only [Function.comp_apply,he]

theorem assignment_append (line : Text) : assignment (line++['\r']) = assignment line := by
  have hs : continuesWord '\r' = false := by decide
  rcases @Ended.skipBlank line (line++['\r']) (.inr rfl) with heq | heq
  · rw [assignment,heq]
    rfl
  · rw [assignment,heq,takeWhile_append_stop hs,dropWhile_append_stop hs,
      valueOf_of_ended (.inr rfl)]
    rfl

example : assignment "Work_Mem 4MB # per sort\r".toList = some ("Work_Mem".toList,"4MB".toList) := by
  decide +kernel

end CarriageReturn

theorem assignments_of_lines {text : Text} {ls : List Text} (h : lines text = ls++[[]]) :
    assignments text = ls.filterMap assignment := by
  rw [assignments,h,filterMap_append]
  exact append_nil _

end ConfFile
end PgBattery
