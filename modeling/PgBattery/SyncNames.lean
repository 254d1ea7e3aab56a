import PgBattery.Rejoin
import PgBattery.SyncMode

/-! `synchronous_standby_names`: what PostgreSQL reads in a value, how the code tells whether the list it
asked for is in force, and the call that installs the list and waits for it. -/
namespace PgBattery
namespace SyncNames
open StateMachine SqlReply Replication TransitionSystem List
open Rejoin (splitWhitespace)

def lower (s : Text) : Text := s.map Char.toLower

section Scanner

inductive Token
  | any
  | first
  | name (s : Text)
  | num (s : Text)
  | comma
  | opening
  | closing
  | junk
  deriving DecidableEq

def isSpace (c : Char) : Bool := c ∈ [' ','\t','\n','\r','\x0b','\x0c']

/-- Every byte of a character outside ASCII belongs to a name. -/
def identStart (c : Char) : Bool := c.isAlpha || c = '_' || 128 ≤ c.toNat

def identCont (c : Char) : Bool := identStart c || c.isDigit || c = '$'

/-- Where the scanner stands; `quote` is behind a quote that closes the name unless another follows. -/
inductive Mode
  | gap
  | ident (s : Text)
  | digits (s : Text)
  | quoted (s : Text)
  | quote (s : Text)

def word (s : Text) : Token :=
  if lower s = "any".toList then .any else if lower s = "first".toList then .first else .name s

/-- The token that stands in a mode when nothing more belongs to it. -/
def Mode.token : Mode → List Token
  | .gap => []
  | .ident s => [word s]
  | .digits s => [.num s]
  | .quoted _ => [.junk]
  | .quote s => [.name s]

def Mode.continues : Mode → Char → Option Mode
  | .gap,_ => none
  | .ident s,c => if identCont c then some (.ident (s++[c])) else none
  | .digits s,c => if c.isDigit then some (.digits (s++[c])) else none
  | .quoted s,c => some (if c = '"' then .quote s else .quoted (s++[c]))
  | .quote s,c => if c = '"' then some (.quoted (s++[c])) else none

def symbol (c : Char) : Token :=
  if c = '*' then .name [c] else if c = ',' then .comma else if c = '(' then .opening
  else if c = ')' then .closing else .junk

def begins (c : Char) : List Token × Mode :=
  if isSpace c then ([],.gap)
  else if c = '"' then ([],.quoted [])
  else if identStart c then ([],.ident [c])
  else if c.isDigit then ([],.digits [c])
  else ([symbol c],.gap)

def scanFrom : Mode → Text → List Token
  | m,[] => m.token
  | m,c::cs =>
    match m.continues c with
    | some m' => scanFrom m' cs
    | none => m.token++((begins c).1++scanFrom (begins c).2 cs)

def scan (s : Text) : List Token := scanFrom .gap s

end Scanner

section Grammar

inductive Method
  | priority
  | quorum
  deriving DecidableEq

structure Config where
  method : Method
  count : ℤ
  names : List Text
  deriving DecidableEq

/-- C's `atoi` of a run of digits: `strtol`, cut to an `int`. -/
def atoi (digits : Text) : ℤ :=
  Int.bmod (min (digits.foldl (fun n c => 10*n+(c.toNat-48)) 0) (2^63-1) : ℕ) (2^32)

def standbyName : Token → Option Text
  | .name s | .num s => some s
  | _ => none

/-- `standby_list`, and what follows it. -/
def standbyList : List Token → Option (List Text × List Token)
  | t::.comma::ts => (standbyName t).bind fun s => (standbyList ts).map fun r => (s::r.1,r.2)
  | t::ts => (standbyName t).map fun s => ([s],ts)
  | [] => none

def counted (method : Method) : List Token → Option Config
  | .num n::.opening::ts => (standbyList ts).bind fun r =>
      if r.2 = [.closing] then some ⟨method,atoi n,r.1⟩ else none
  | _ => none

def config : List Token → Option Config
  | .first::ts => counted .priority ts
  | .any::ts => counted .quorum ts
  | .num n::.opening::ts => counted .priority (.num n::.opening::ts)
  | ts => (standbyList ts).bind fun r => if r.2 = [] then some ⟨.priority,1,r.1⟩ else none

def meaning (value : Text) : Option Config := config (scan value)

/-- What the setting's check lets in: nothing, or a configuration that waits for somebody. -/
def Held (value : Text) : Prop := value = [] ∨ ∃ c, meaning value = some c ∧ 0 < c.count

instance instDecidableHeld (value : Text) : Decidable (Held value) :=
  inferInstanceAs (Decidable (value = [] ∨ ∃ c ∈ meaning value, 0 < c.count))

def Config.fold (c : Config) : Config := {c with names := c.names.map lower}

/-- The same method, the same count and the same names in the same order, or both nothing. -/
def SameMeaning (a b : Text) : Prop := (meaning a).map Config.fold = (meaning b).map Config.fold

instance instDecidableSameMeaning (a b : Text) : Decidable (SameMeaning a b) :=
  inferInstanceAs (Decidable ((meaning a).map Config.fold = (meaning b).map Config.fold))

end Grammar

section Code

/-- `char::to_lowercase`. -/
structure Unicode where
  toLowercase : Char → Text
  ascii : ∀ c : Char, c.toNat < 128 → toLowercase c = [c.toLower]

def trimMatches (q : Char) (s : Text) : Text := (s.dropWhile (· = q)).rdropWhile (· = q)

def strip (s : Text) : Text := trimMatches '\'' (trimMatches '"' (trim s))

variable (u : Unicode)

def sameTokens : List Text → List Text → Bool
  | [],[] => true
  | x::xs,y::ys => x.flatMap u.toLowercase = y.flatMap u.toLowercase && sameTokens xs ys
  | _,_ => false

def syncNamesEquivalent (a b : Text) : Bool :=
  sameTokens u (splitWhitespace (strip a)) (splitWhitespace (strip b))

def validatePgIdentifier (name : Text) : Bool :=
  name ≠ [] && name.length ≤ 63 && name.all fun c => c.isAlphanum || c = '_'

/-- The check of the names between the parentheses. -/
def validated (names : Text) : Bool :=
  match splitOnce '(' names with
  | some (_,rest) =>
    ')' ∉ rest || ((rest.rdropWhile (· ≠ ')')).dropLast.splitOn ',').all fun name =>
      trim name = [] || validatePgIdentifier (trim name)
  | none => true

structure Setting where
  live : Text
  held : Held live
  onReload : Text

inductive Phase
  | probing
  | altering
  | polling
  | returned (ok : Bool)
  deriving DecidableEq

structure World where
  setting : Setting
  phase : Phase

/-- `configure` is a write or a reload by anyone, ours included once it takes effect. -/
inductive Event
  | configure (setting : Setting)
  | probe (answered : Bool)
  | alter (done : Bool)
  | poll (answered late : Bool)

def entry (names : Text) : Phase := if validated names then .probing else .returned false

/-- `sync_standby_names_now_and_on_reload`: the reply holds both, with a tab between. -/
def Setting.nowAndOnReload (s : Setting) : Option (Text × Text) :=
  (splitOnce '\t' (s.live++ '\t'::s.onReload)).map fun r => (trim r.1,trim r.2)

def Setting.settled (names : Text) (s : Setting) : Bool :=
  s.nowAndOnReload.any fun r => syncNamesEquivalent u r.1 names && syncNamesEquivalent u r.2 names

/-- `set_sync_standby_names` and `wait_for_sync_standby_names_effective`. -/
def step (names : Text) (w : World) : Event → Option World
  | .configure setting => some {w with setting}
  | .probe answered =>
    if w.phase = .probing then
      some {w with phase := if answered && w.setting.settled u names then .returned true else .altering}
    else none
  | .alter done =>
    if w.phase = .altering then some {w with phase := if done then .polling else .returned false} else none
  | .poll answered late =>
    if w.phase = .polling then
      some {w with phase :=
        if answered = false then .returned false
        else if syncNamesEquivalent u (trim w.setting.live) names then .returned true
        else if late then .returned false else .polling}
    else none

/-- ASCII without a double quote. -/
def Plain (s : Text) : Prop := ∀ c ∈ s, c.toNat < 128 ∧ c ≠ '"'

/-- Where a call succeeds, the setting it has read means the list exactly if it is plain. -/
def recognised (names : Text) (w : World) : Event → Prop
  | .configure _ => True
  | e => (step u names w e).map World.phase = some (.returned true) →
    (SameMeaning w.setting.live names ↔ Plain w.setting.live)

end Code

section Scanning
variable {c : Char} {m m' : Mode} {s t : Text}

theorem toLower_cases (c : Char) :
    c.toLower = c ∨ ∃ i < 26, c = Char.ofNat (65+i) ∧ c.toLower = Char.ofNat (97+i) := by
  by_cases h : 65 ≤ c.toNat ∧ c.toNat ≤ 90
  · obtain ⟨i,hi,rfl⟩ : ∃ i < 26, c = Char.ofNat (65+i) :=
      ⟨c.toNat-65,by omega,by rw [Nat.add_sub_cancel' h.1,Char.ofNat_toNat]⟩
    exact .inr ⟨i,hi,rfl,by interval_cases i <;> rfl⟩
  · exact .inl (dif_neg (by simpa [UInt32.le_iff_toNat_le] using h))

theorem toLower_class (c : Char) : isSpace c.toLower = isSpace c ∧ (c.toLower = '"' ↔ c = '"') ∧
    identStart c.toLower = identStart c ∧ c.toLower.isDigit = c.isDigit ∧ identCont c.toLower = identCont c ∧
    (c.isDigit → c.toLower = c) := by
  rcases toLower_cases c with h | ⟨i,hi,rfl,h⟩
  · simp [h]
  · rw [h]
    interval_cases i <;> decide

@[simp] theorem lower_lower (s : Text) : lower (lower s) = lower s := by
  have h : ∀ c : Char, c.toLower.toLower = c.toLower := by
    intro c
    rcases toLower_cases c with h | ⟨i,hi,rfl,h⟩
    · rw [h,h]
    · rw [h]
      interval_cases i <;> rfl
  simp [lower,h]

def Token.fold : Token → Token
  | .name s => .name (lower s)
  | t => t

def Mode.fold : Mode → Mode
  | .gap => .gap
  | .ident s => .ident (lower s)
  | .digits s => .digits s
  | .quoted s => .quoted (lower s)
  | .quote s => .quote (lower s)

theorem token_fold (m : Mode) : m.fold.token = m.token.map Token.fold := by
  cases m <;> simp [Mode.fold,Mode.token,Token.fold,word]
  split_ifs <;> rfl

theorem continues_fold (m : Mode) (c : Char) : m.fold.continues c.toLower = (m.continues c).map Mode.fold := by
  obtain ⟨-,hq,-,hd,hc,hs⟩ := toLower_class c
  cases m <;> simp [Mode.fold,Mode.continues,hq,hd,hc]
  · split_ifs <;> simp [lower]
  · split_ifs with h <;> simp
    exact hs h
  · split_ifs <;> simp [lower]
  · split_ifs <;> simp [lower]

theorem begins_fold (c : Char) :
    (begins c.toLower).1 = (begins c).1.map Token.fold ∧ (begins c.toLower).2 = (begins c).2.fold := by
  obtain ⟨hsp,hq,hst,hd,-,hsa⟩ := toLower_class c
  have hs : symbol c.toLower = (symbol c).fold := by
    rcases toLower_cases c with h | ⟨i,hi,rfl,h⟩
    · rw [h,symbol]
      split_ifs with hsta <;> simp [Token.fold,hsta]
      rfl
    · rw [h]
      interval_cases i <;> rfl
  simp only [begins,hsp,hq,hst,hd]
  split_ifs with h1 h2 h3 h4 <;> simp [Mode.fold,lower,hs]
  exact hsa h4

theorem scanFrom_lower (m : Mode) (s : Text) :
    scanFrom m.fold (lower s) = (scanFrom m s).map Token.fold := by
  induction s generalizing m with
  | nil => exact token_fold m
  | cons c s ih =>
    simp only [lower,map_cons,scanFrom,continues_fold]
    cases m.continues c with
    | none => simp [token_fold,begins_fold,← ih,lower]
    | some m' => exact ih m'

def Mode.unquoted : Mode → Bool
  | .quoted _ | .quote _ => false
  | .gap | .ident _ | .digits _ => true

theorem unquoted_begins (hc : c ≠ '"') : (begins c).2.unquoted := by
  rw [begins]
  split_ifs <;> rfl

theorem unquoted_continues (hm : m.unquoted) (h : m.continues c = some m') : m'.unquoted := by
  cases m <;> simp [Mode.continues] at h <;> simp_all [Mode.unquoted]
  all_goals grind [Mode.unquoted]

/-- Outside a quoted name, a character that is in no identifier parts the tokens before it from those
that begin with it. -/
theorem scanFrom_append (hm : m.unquoted) (hs : '"' ∉ s) (hc : identCont c = false) :
    scanFrom m (s++c::t) = scanFrom m s++scan (c::t) := by
  induction s generalizing m with
  | nil =>
    have hdi : c.isDigit = false := by simp_all [identCont]
    cases m <;> simp_all [scanFrom,scan,Mode.continues,Mode.token,Mode.unquoted]
  | cons d s ih =>
    obtain ⟨hd,hs⟩ := not_or.1 (mt mem_cons.2 hs)
    rw [cons_append,scanFrom,scanFrom]
    split
    · next m' h => exact ih (unquoted_continues hm h) hs
    · rw [ih (unquoted_begins (Ne.symm hd)) hs]
      simp

theorem junk_mem_scanFrom (hm : m.unquoted) (hs : '"' ∉ s) (hq : '\'' ∈ s) :
    Token.junk ∈ scanFrom m s := by
  obtain ⟨a,b,rfl⟩ := append_of_mem hq
  rw [scanFrom_append hm (fun h => hs (mem_append_left _ h)) (by decide)]
  exact mem_append_right _ mem_cons_self

theorem scanFrom_eq_nil (h : scanFrom m s = []) : m = .gap ∧ ∀ c ∈ s, isSpace c := by
  induction s generalizing m with
  | nil => cases m <;> simp_all [scanFrom,Mode.token]
  | cons c s ih =>
    rw [scanFrom] at h
    split at h
    · next m' hm =>
      rw [(ih h).1] at hm
      cases m <;> simp [Mode.continues] at hm
      split_ifs at hm
    · simp only [append_eq_nil_iff] at h
      obtain ⟨ht,hb,hs⟩ := h
      obtain ⟨hg,hs⟩ := ih hs
      refine ⟨?_,forall_mem_cons.2 ⟨?_,hs⟩⟩
      · cases m <;> simp_all [Mode.token]
      · unfold begins at hb hg
        split_ifs at hb hg with h
        exact h

/-- The characters in a mode that a name token will hold. -/
def Mode.text : Mode → Text
  | .gap | .digits _ => []
  | .ident s | .quoted s | .quote s => s

theorem toLower_of_high (hc : 128 ≤ c.toNat) : c.toLower = c := by
  rcases toLower_cases c with h | ⟨i,hi,rfl,-⟩
  · exact h
  · interval_cases i <;> simp at hc

theorem token_of_high (hc : 128 ≤ c.toNat) (h : c ∈ m.text) :
    Token.junk ∈ m.token ∨ ∃ q, Token.name q ∈ m.token ∧ c ∈ q := by
  cases m with
  | gap | digits => simp [Mode.text] at h
  | quoted s => exact .inl (by simp [Mode.token])
  | quote s => exact .inr ⟨s,by simp [Mode.token],h⟩
  | ident s =>
    have hl : c ∈ lower s := toLower_of_high hc ▸ mem_map_of_mem h
    have hk : ∀ w ∈ ["any".toList,"first".toList], lower s ≠ w := by
      intro w hw heq
      have ha : ∀ w ∈ ["any".toList,"first".toList], ∀ d ∈ w, d.toNat < 128 := by simp
      exact absurd (ha w hw c (heq ▸ hl)) (by omega)
    refine .inr ⟨s,?_,h⟩
    rw [Mode.token,word,if_neg (hk _ (by simp)),if_neg (hk _ (by simp))]
    exact mem_singleton_self _

/-- Every character outside ASCII stands in a name. -/
theorem mem_scanFrom_of_high (hc : 128 ≤ c.toNat) (h : c ∈ m.text++s) :
    Token.junk ∈ scanFrom m s ∨ ∃ q, Token.name q ∈ scanFrom m s ∧ c ∈ q := by
  induction s generalizing m with
  | nil => exact token_of_high hc (by simpa using h)
  | cons d s ih =>
    have hb : d = c → begins d = ([],.ident [d]) := by
      rintro rfl
      have hsp : isSpace d = false := by
        by_contra hn
        simp only [isSpace,mem_cons,not_mem_nil,or_false,Bool.not_eq_false,decide_eq_true_eq] at hn
        rcases hn with rfl | rfl | rfl | rfl | rfl | rfl <;> simp at hc
      have hq : d ≠ '"' := by
        rintro rfl
        simp at hc
      simp [begins,hsp,hq,identStart,hc]
    rw [scanFrom]
    cases hm : m.continues d with
    | some m' =>
      refine ih ?_
      have hi : ∀ e, 128 ≤ e.toNat → e ≠ '"' ∧ e.isDigit = false := by
        intro e he
        refine ⟨?_,?_⟩
        · rintro rfl
          simp at he
        · simp only [Char.isDigit,Bool.and_eq_false_imp,decide_eq_true_eq,decide_eq_false_iff_not,
            ge_iff_le,UInt32.le_iff_toNat_le]
          intro _ hle
          exact absurd (he.trans hle) (by decide)
      have := hi c hc
      cases m <;> simp only [Mode.continues,Option.some.injEq] at hm
      · cases hm
      all_goals
        split_ifs at hm with hd
        all_goals
          cases hm
          grind [Mode.text]
    | none =>
      rcases mem_append.1 h with h | h
      · rcases token_of_high hc h with hj | ⟨q,hq,hcq⟩
        · exact .inl (mem_append_left _ hj)
        · exact .inr ⟨q,mem_append_left _ hq,hcq⟩
      · have hr := ih (m := (begins d).2) (by
          rcases mem_cons.1 h with rfl | h
          · simp [hb,Mode.text]
          · exact mem_append_right _ h)
        rcases hr with hj | ⟨q,hq,hcq⟩
        · exact .inl (mem_append_right _ (mem_append_right _ hj))
        · exact .inr ⟨q,mem_append_right _ (mem_append_right _ hq),hcq⟩

/-- Inside a quoted name, the next token is that name or the text ends too early. -/
theorem scanFrom_quoted (s t : Text) :
    (∃ tok ts, scanFrom (.quoted s) t = tok::ts ∧ (tok = .junk ∨ ∃ q, tok = .name (s++q))) ∧
      ∃ tok ts, scanFrom (.quote s) t = tok::ts ∧ (tok = .junk ∨ ∃ q, tok = .name (s++q)) := by
  induction t generalizing s with
  | nil => exact ⟨⟨_,_,rfl,.inl rfl⟩,⟨_,_,rfl,.inr ⟨[],by simp⟩⟩⟩
  | cons c t ih =>
    have hq : ∀ c, (∃ tok ts, scanFrom (.quoted (s++[c])) t = tok::ts ∧
        (tok = .junk ∨ ∃ q, tok = .name (s++q))) := by
      intro c
      obtain ⟨tok,ts,hs,ht⟩ := (ih (s++[c])).1
      refine ⟨tok,ts,hs,ht.imp_right ?_⟩
      rintro ⟨q,rfl⟩
      exact ⟨c::q,by simp⟩
    by_cases hc : c = '"'
    · subst hc
      exact ⟨by simpa [scanFrom,Mode.continues] using (ih s).2,
        by simpa [scanFrom,Mode.continues] using hq '"'⟩
    · refine ⟨by simpa [scanFrom,Mode.continues,hc] using hq c,.name s,
        (begins c).1++scanFrom (begins c).2 t,?_,.inr ⟨[],by simp⟩⟩
      simp [scanFrom,Mode.continues,hc,Mode.token]

/-- The name behind a double quote is empty, or begins with the next character or a quote. -/
theorem scan_quote (r : Text) : ∃ tok ts, scan ('"'::r) = tok::ts ∧ (tok = .junk ∨
    ∃ q, tok = .name q ∧ ∀ d, q.head? = some d → d = '"' ∨ r.head? = some d) := by
  have hs : scan ('"'::r) = scanFrom (.quoted []) r := by
    simp [scan,scanFrom,Mode.continues,Mode.token,begins,isSpace]
  rw [hs]
  rcases r with _ | ⟨d,r⟩
  · exact ⟨_,_,rfl,.inl rfl⟩
  by_cases hd : d = '"'
  · subst hd
    rcases r with _ | ⟨e,r⟩
    · exact ⟨_,_,rfl,.inr ⟨[],rfl,by simp⟩⟩
    by_cases he : e = '"'
    · subst he
      obtain ⟨tok,ts,hs,ht⟩ := (scanFrom_quoted ['"'] r).1
      refine ⟨tok,ts,by simpa [scanFrom,Mode.continues] using hs,ht.imp_right ?_⟩
      rintro ⟨q,rfl⟩
      exact ⟨_,rfl,by simp⟩
    · refine ⟨.name [],(begins e).1++scanFrom (begins e).2 r,?_,.inr ⟨[],rfl,by simp⟩⟩
      simp [scanFrom,Mode.continues,he,Mode.token]
  · obtain ⟨tok,ts,hs,ht⟩ := (scanFrom_quoted [d] r).1
    refine ⟨tok,ts,by simpa [scanFrom,Mode.continues,hd] using hs,ht.imp_right ?_⟩
    rintro ⟨q,rfl⟩
    exact ⟨_,rfl,by simp⟩

theorem scanFrom_ident (h : ∀ c ∈ t, identCont c) : scanFrom (.ident s) t = [word (s++t)] := by
  induction t generalizing s with
  | nil => simp [scanFrom,Mode.token]
  | cons c t ih =>
    obtain ⟨hc,ht⟩ := forall_mem_cons.1 h
    simp [scanFrom,Mode.continues,hc,ih ht]

theorem scanFrom_digits (h : ∀ c ∈ t, c.isDigit) : scanFrom (.digits s) t = [.num (s++t)] := by
  induction t generalizing s with
  | nil => simp [scanFrom,Mode.token]
  | cons c t ih =>
    obtain ⟨hc,ht⟩ := forall_mem_cons.1 h
    simp [scanFrom,Mode.continues,hc,ih ht]

end Scanning

section Words
variable {c : Char} {s t : Text}

theorem words_induction {P : Text → Prop} (hw : ∀ s, (∀ c ∈ s, whitespace c = false) → P s)
    (hcu : ∀ s c t, (∀ c ∈ s, whitespace c = false) → whitespace c → P t → P (s++c::t)) (s : Text) :
    P s := by
  induction h : s.length using Nat.strong_induction_on generalizing s with
  | _ n ih =>
    have hd := takeWhile_append_dropWhile (p := fun c => !whitespace c) (l := s)
    have ht : ∀ c ∈ s.takeWhile fun c => !whitespace c, whitespace c = false := fun c hc => by
      simpa using mem_takeWhile_imp hc
    cases hr : s.dropWhile fun c => !whitespace c with
    | nil =>
      rw [hr,append_nil] at hd
      exact hw s (hd ▸ ht)
    | cons c t =>
      have hc : whitespace c := by
        simpa [hr] using head_dropWhile_not (fun c => !whitespace c) (l := s) (by simp [hr])
      rw [hr] at hd
      rw [← hd]
      refine hcu _ c t ht hc (ih t.length ?_ t rfl)
      rw [← h,← hd]
      simp
      omega

theorem splitWhitespace_append (hc : whitespace c) :
    splitWhitespace (s++c::t) = splitWhitespace s++splitWhitespace t := by
  simp [splitWhitespace,splitOnP_append_cons s t hc]

theorem splitWhitespace_word (h : ∀ c ∈ s, whitespace c = false) : splitWhitespace s = [s].filter (· ≠ []) := by
  rw [splitWhitespace,splitOnP_eq_singleton h]

theorem mem_of_mem_splitWhitespace (s : Text) : ∀ w ∈ splitWhitespace s, ∀ c ∈ w, c ∈ s := by
  induction s using words_induction with
  | hw s h => simp +contextual [splitWhitespace_word h]
  | hcu s c t hs hc ih =>
    simp only [splitWhitespace_append hc,splitWhitespace_word hs,mem_append,mem_filter]
    grind

theorem splitWhitespace_blank_append (h : ∀ c ∈ s, whitespace c) :
    splitWhitespace (s++t) = splitWhitespace t := by
  induction s with
  | nil => rfl
  | cons c s ih =>
    obtain ⟨hc,hs⟩ := forall_mem_cons.1 h
    exact (splitWhitespace_append (s := []) hc).trans (ih hs)

theorem splitWhitespace_append_blank (h : ∀ c ∈ t, whitespace c) :
    splitWhitespace (s++t) = splitWhitespace s := by
  cases t with
  | nil => rw [append_nil]
  | cons c t =>
    obtain ⟨hc,ht⟩ := forall_mem_cons.1 h
    rw [splitWhitespace_append hc,← append_nil t,splitWhitespace_blank_append ht]
    exact append_nil _

theorem exists_word (hc : c ∈ s) (hb : whitespace c = false) : ∃ w ∈ splitWhitespace s, c ∈ w := by
  induction s using words_induction with
  | hw s hs =>
    exact ⟨s,by simp [splitWhitespace_word hs,ne_nil_of_mem hc],hc⟩
  | hcu s d t hs hd ih =>
    rw [splitWhitespace_append hd,splitWhitespace_word hs]
    rcases mem_append.1 hc with hc | hc
    · exact ⟨s,by simp [ne_nil_of_mem hc],hc⟩
    · rcases mem_cons.1 hc with rfl | hc
      · simp [hb] at hd
      · obtain ⟨w,hw,hcw⟩ := ih hc
        exact ⟨w,mem_append_right _ hw,hcw⟩

theorem splitWhitespace_cons (hc : whitespace c = false) (s : Text) :
    ∃ w ws, splitWhitespace (c::s) = (c::w)::ws := by
  have hw : ∀ w : Text, (∀ d ∈ w, whitespace d = false) → splitWhitespace (c::w) = [c::w] := by
    intro w hw
    simp [splitWhitespace_word (forall_mem_cons.2 ⟨hc,hw⟩)]
  induction s using words_induction with
  | hw s hs => exact ⟨s,[],hw s hs⟩
  | hcu s d t hs hd ih =>
    refine ⟨s,splitWhitespace t,?_⟩
    rw [← cons_append,splitWhitespace_append hd,hw s hs,singleton_append]

theorem splitWhitespace_trim (s : Text) : splitWhitespace (trim s) = splitWhitespace s := by
  have hl := splitWhitespace_blank_append (s := s.takeWhile whitespace) (t := s.dropWhile whitespace)
    fun c hc => mem_takeWhile_imp hc
  have hr := splitWhitespace_append_blank (s := trim s) (t := (s.dropWhile whitespace).rtakeWhile whitespace)
    fun c hc => mem_rtakeWhile_imp hc
  rw [trim,rdropWhile_append_rtakeWhile] at hr
  rw [takeWhile_append_dropWhile] at hl
  exact hr.symm.trans hl.symm

theorem isSpace_eq_whitespace (h : c.toNat < 128) : isSpace c = whitespace c := by
  have ha : ∀ n < 128, isSpace (Char.ofNat n) = whitespace (Char.ofNat n) := by decide
  simpa using ha c.toNat h

theorem space_cases (hc : isSpace c) : identCont c = false ∧ c ≠ '"' ∧ c.toNat < 128 := by
  simp only [isSpace,mem_cons,not_mem_nil,or_false,decide_eq_true_eq] at hc
  rcases hc with rfl | rfl | rfl | rfl | rfl | rfl <;> decide

theorem scan_append_space (hs : '"' ∉ s) (hc : isSpace c) : scan (s++c::t) = scan s++scan t := by
  rw [scan,scanFrom_append rfl hs (space_cases hc).1]
  simp [scan,scanFrom,Mode.continues,Mode.token,begins,hc]

theorem scan_words (h : Plain s) : scan s = (splitWhitespace s).flatMap scan := by
  have ho : ∀ w : Text, ([w].filter (· ≠ [])).flatMap scan = scan w := by
    intro w
    cases w <;> simp
    rfl
  induction s using words_induction with
  | hw s hs => rw [splitWhitespace_word hs,ho]
  | hcu s c t hs hc ih =>
    obtain ⟨hp,hr⟩ := forall_mem_append.1 h
    obtain ⟨⟨ha,-⟩,ht⟩ := forall_mem_cons.1 hr
    rw [scan_append_space (fun hq => (hp _ hq).2 rfl) ((isSpace_eq_whitespace ha).trans hc),
      splitWhitespace_append hc,splitWhitespace_word hs,flatMap_append,ho,ih ht]

theorem scan_fold_of_words (hs : Plain s) (ht : Plain t)
    (h : (splitWhitespace s).map lower = (splitWhitespace t).map lower) :
    (scan s).map Token.fold = (scan t).map Token.fold := by
  have hf : ∀ ws : List Text, (ws.flatMap scan).map Token.fold = (ws.map lower).flatMap scan := by
    intro ws
    rw [map_flatMap,flatMap_map]
    exact flatMap_congr fun w _ => (scanFrom_lower .gap w).symm
  rw [scan_words hs,scan_words ht,hf,hf,h]

end Words

section Recognition
variable {u : Unicode} {c : Char} {v l s : Text}

def Bare (s : Text) : Prop := ∀ c ∈ s, c.toNat < 128 ∧ c ≠ '"' ∧ c ≠ '\''

theorem Bare.plain (h : Bare s) : Plain s := fun c hc => ⟨(h c hc).1,(h c hc).2.1⟩

theorem Bare.of_subset (h : Bare s) {t : Text} (hs : ∀ c ∈ t, c ∈ s) : Bare t := fun _ hc => h _ (hs _ hc)

theorem mem_of_mem_trim (s : Text) : ∀ c ∈ trim s, c ∈ s := fun _ hc =>
  (dropWhile_sublist _).mem ((List.rdropWhile_prefix _ _).mem hc)

theorem strip_of_bare (h : Bare s) : strip s = trim s := by
  have hn : ∀ q : Char, q ∉ s → ∀ t : Text, (∀ c ∈ t, c ∈ s) → trimMatches q t = t := by
    intro q hq t ht
    have hne : ∀ c ∈ t, c ≠ q := fun c hc heq => hq (heq ▸ ht c hc)
    have hd : t.dropWhile (· = q) = t := by cases t <;> simp_all
    rw [trimMatches,hd,rdropWhile_eq_self_iff]
    intro hni
    simpa using hne _ (getLast_mem hni)
  rw [strip,hn '"' (fun hq => (h _ hq).2.1 rfl) _ (mem_of_mem_trim s),
    hn '\'' (fun hq => (h _ hq).2.2 rfl) _ (mem_of_mem_trim s)]

theorem lower_of_sameTokens {xs ys : List Text} (h : sameTokens u xs ys)
    (hx : ∀ x ∈ xs, ∀ c ∈ x, c.toNat < 128) (hy : ∀ y ∈ ys, ∀ c ∈ y, c.toNat < 128) :
    xs.map lower = ys.map lower := by
  have ha : ∀ x : Text, (∀ c ∈ x, c.toNat < 128) → x.flatMap u.toLowercase = lower x := by
    intro x hx
    induction x <;> simp_all [lower,u.ascii]
  fun_induction sameTokens u xs ys with
  | case1 => rfl
  | case2 x xs y ys ih =>
    obtain ⟨heq,hr⟩ := Bool.and_eq_true_iff.1 h
    obtain ⟨hx,hxs⟩ := forall_mem_cons.1 hx
    obtain ⟨hy,hys⟩ := forall_mem_cons.1 hy
    rw [map_cons,map_cons,ih hr hxs hys,← ha x hx,← ha y hy,of_decide_eq_true heq]
  | case3 => cases h

theorem scan_fold_of_equivalent (hv : Bare v) (hl : Bare l) (h : syncNamesEquivalent u v l) :
    (scan v).map Token.fold = (scan l).map Token.fold := by
  rw [syncNamesEquivalent,strip_of_bare hv,strip_of_bare hl,splitWhitespace_trim,splitWhitespace_trim] at h
  refine scan_fold_of_words hv.plain hl.plain (lower_of_sameTokens h ?_ ?_)
  · exact fun w hw c hc => (hv c (mem_of_mem_splitWhitespace v w hw c hc)).1
  · exact fun w hw c hc => (hl c (mem_of_mem_splitWhitespace l w hw c hc)).1

end Recognition

section Parsing
variable {ts : List Token} {n : Text}

@[simp] theorem fold_fold (t : Token) : t.fold.fold = t.fold := by
  cases t <;> simp [Token.fold]

theorem fold_eq_closing {t : Token} : t.fold = .closing ↔ t = .closing := by
  cases t <;> simp [Token.fold]

def foldList (r : List Text × List Token) : List Text × List Token := (r.1.map lower,r.2.map Token.fold)

theorem standbyList_fold (ts : List Token) :
    (standbyList (ts.map Token.fold)).map foldList = (standbyList ts).map foldList := by
  have hc : ∀ (s : Text) (o : Option (List Text × List Token)),
      (o.map fun r => (s::r.1,r.2)).map foldList = (o.map foldList).map fun r => (lower s::r.1,r.2) := by
    intro s o
    cases o <;> rfl
  fun_induction standbyList ts with
  | case1 t ts ih => cases t <;> simp [Token.fold,standbyList,standbyName,hc,ih]
  | case2 t ts h =>
    have hr : standbyList ((t::ts).map Token.fold) = (standbyName t.fold).map fun s => ([s],ts.map Token.fold) := by
      cases ts with
      | nil => rfl
      | cons t' ts => cases t' <;> simp_all [Token.fold,standbyList]
    have hm : (ts.map Token.fold).map Token.fold = ts.map Token.fold := by simp
    rw [hr]
    cases t <;> simp only [Token.fold,standbyName,foldList,Option.map_some,Option.map_none,map_cons,
      map_nil,lower_lower,hm]
  | case3 => rfl

theorem bind_fold {o o' : Option (List Text × List Token)} (h : o.map foldList = o'.map foldList)
    (method : Method) (count : ℤ) {rest : List Token} (hr : ∀ ts, ts.map Token.fold = rest ↔ ts = rest) :
    (o.bind fun r => if r.2 = rest then some (⟨method,count,r.1⟩ : Config) else none).map Config.fold =
      (o'.bind fun r => if r.2 = rest then some ⟨method,count,r.1⟩ else none).map Config.fold := by
  rcases o with _ | r <;> rcases o' with _ | r' <;> simp only [Option.map_none,Option.map_some] at h
  · rfl
  · cases h
  · cases h
  · obtain ⟨hn,ht⟩ := Prod.ext_iff.1 (Option.some_inj.1 h)
    have hi : r.2 = rest ↔ r'.2 = rest :=
      (hr r.2).symm.trans ((iff_of_eq (congrArg (· = rest) ht)).trans (hr r'.2))
    simp only [Option.bind_some,hi]
    split_ifs
    · exact congrArg (fun names => some (⟨method,count,names⟩ : Config)) hn
    · rfl

theorem counted_fold (method : Method) (ts : List Token) :
    (counted method (ts.map Token.fold)).map Config.fold = (counted method ts).map Config.fold := by
  rcases ts with _ | ⟨t,_ | ⟨t',ts⟩⟩
  · rfl
  · cases t <;> rfl
  · cases t <;> try rfl
    cases t' <;> try rfl
    refine bind_fold (standbyList_fold ts) _ _ fun ts => ?_
    simp [map_eq_singleton_iff,fold_eq_closing]

theorem config_fold (ts : List Token) : (config (ts.map Token.fold)).map Config.fold = (config ts).map Config.fold := by
  have hl : ∀ ts, (config ts = (standbyList ts).bind fun r => if r.2 = [] then some ⟨.priority,1,r.1⟩ else none) →
      config (ts.map Token.fold) = ((standbyList (ts.map Token.fold)).bind fun r =>
        if r.2 = [] then some ⟨.priority,1,r.1⟩ else none) →
      (config (ts.map Token.fold)).map Config.fold = (config ts).map Config.fold := by
    intro ts h h'
    rw [h,h']
    exact bind_fold (standbyList_fold ts) _ _ fun ts => map_eq_nil_iff
  rcases ts with _ | ⟨t,ts⟩
  · rfl
  · cases t with
    | first => exact counted_fold .priority ts
    | any => exact counted_fold .quorum ts
    | num n =>
      rcases ts with _ | ⟨t',ts⟩
      · rfl
      · cases t' with
        | opening => exact counted_fold .priority (.num n::.opening::ts)
        | _ => exact hl _ rfl rfl
    | _ => exact hl _ rfl rfl

theorem standbyList_tokens {r : List Text × List Token} (h : standbyList ts = some r) :
    ∃ items, ts = items++r.2 ∧ ∀ t ∈ items, t ≠ .closing ∧ t ≠ .junk := by
  fun_induction standbyList ts generalizing r with
  | case1 t ts ih =>
    obtain ⟨s,hs,hm⟩ := Option.bind_eq_some_iff.1 h
    obtain ⟨r,hr,rfl⟩ := Option.map_eq_some_iff.1 hm
    obtain ⟨items,rfl,hi⟩ := ih hr
    refine ⟨t::.comma::items,rfl,?_⟩
    cases t <;> simp_all [standbyName]
  | case2 t ts =>
    obtain ⟨s,hs,rfl⟩ := Option.map_eq_some_iff.1 h
    refine ⟨[t],rfl,?_⟩
    cases t <;> simp_all [standbyName]
  | case3 => cases h

theorem counted_tokens {method : Method} (h : counted method ts ≠ none) :
    ∃ items, ts = items++[.closing] ∧ ∀ t ∈ items, t ≠ .closing ∧ t ≠ .junk := by
  unfold counted at h
  split at h
  · next n ts =>
    obtain ⟨c,hc⟩ := Option.ne_none_iff_exists'.1 h
    obtain ⟨r,hr,hif⟩ := Option.bind_eq_some_iff.1 hc
    obtain ⟨items,rfl,hi⟩ := standbyList_tokens hr
    split_ifs at hif with hre
    exact ⟨.num n::.opening::items,by simp [hre],by simpa using hi⟩
  · exact absurd rfl h

theorem config_tokens (h : config ts ≠ none) :
    ∃ items, (ts = items ∨ ts = items++[.closing]) ∧ ∀ t ∈ items, t ≠ .closing ∧ t ≠ .junk := by
  unfold config at h
  split at h
  · obtain ⟨items,rfl,hi⟩ := counted_tokens h
    exact ⟨.first::items,.inr rfl,by simpa using hi⟩
  · obtain ⟨items,rfl,hi⟩ := counted_tokens h
    exact ⟨.any::items,.inr rfl,by simpa using hi⟩
  · obtain ⟨items,hts,hi⟩ := counted_tokens h
    exact ⟨items,.inr hts,hi⟩
  · obtain ⟨c,hc⟩ := Option.ne_none_iff_exists'.1 h
    obtain ⟨r,hr,hif⟩ := Option.bind_eq_some_iff.1 hc
    obtain ⟨items,rfl,hi⟩ := standbyList_tokens hr
    split_ifs at hif with hre
    exact ⟨items,.inl (by simp [hre]),hi⟩

theorem junk_notMem_of_config (h : config ts ≠ none) : Token.junk ∉ ts := by
  intro hj
  obtain ⟨items,hi,hne⟩ := config_tokens h
  have hm : Token.junk ∈ items := by rcases hi with rfl | rfl <;> simpa using hj
  exact (hne _ hm).2 rfl

theorem mem_names_of_list {r : List Text × List Token} (h : standbyList ts = some r)
    (hn : .name n ∈ ts) : n ∈ r.1 ∨ .name n ∈ r.2 := by
  fun_induction standbyList ts generalizing r with
  | case1 t ts ih =>
    obtain ⟨s,hs,hm⟩ := Option.bind_eq_some_iff.1 h
    obtain ⟨r,hr,rfl⟩ := Option.map_eq_some_iff.1 hm
    simp only [mem_cons,reduceCtorEq,false_or] at hn
    rcases hn with rfl | hn
    · cases hs
      exact .inl mem_cons_self
    · exact (ih hr hn).imp_left (mem_cons_of_mem _)
  | case2 t ts =>
    obtain ⟨s,hs,rfl⟩ := Option.map_eq_some_iff.1 h
    rcases mem_cons.1 hn with rfl | hn
    · cases hs
      exact .inl mem_cons_self
    · exact .inr hn
  | case3 => cases h

theorem mem_names_of_counted {method : Method} {cfg : Config} (h : counted method ts = some cfg)
    (hn : .name n ∈ ts) : n ∈ cfg.names := by
  unfold counted at h
  split at h
  · obtain ⟨r,hr,hif⟩ := Option.bind_eq_some_iff.1 h
    split_ifs at hif with hre
    cases hif
    exact (mem_names_of_list hr (by simpa using hn)).resolve_right (by simp [hre])
  · cases h

theorem mem_names_of_config {cfg : Config} (h : config ts = some cfg) (hn : .name n ∈ ts) :
    n ∈ cfg.names := by
  unfold config at h
  split at h
  · exact mem_names_of_counted h (by simpa using hn)
  · exact mem_names_of_counted h (by simpa using hn)
  · exact mem_names_of_counted h hn
  · obtain ⟨r,hr,hif⟩ := Option.bind_eq_some_iff.1 h
    split_ifs at hif with hre
    cases hif
    exact (mem_names_of_list hr hn).resolve_right (by simp [hre])

theorem names_head {cfg : Config} (h : config (.name n::ts) = some cfg) : cfg.names.head? = some n := by
  obtain ⟨r,hr,hif⟩ := Option.bind_eq_some_iff.1 h
  split_ifs at hif
  cases hif
  unfold standbyList at hr
  split at hr
  · next t ts heq =>
    cases heq
    obtain ⟨r,-,rfl⟩ := Option.map_eq_some_iff.1 hr
    rfl
  · next t ts hne heq =>
    cases heq
    cases hr
    rfl
  · next heq => cases heq

end Parsing

section Installed
variable {u : Unicode} {v l s : Text} {c : Char}

theorem sameMeaning_of_scan (h : (scan v).map Token.fold = (scan l).map Token.fold) : SameMeaning v l := by
  rw [SameMeaning,meaning,meaning,← config_fold,h,config_fold]

theorem bare_of_held (hp : Plain v) (h : Held v) : Bare v := by
  intro c hc
  refine ⟨(hp c hc).1,(hp c hc).2,?_⟩
  rintro rfl
  rcases h with rfl | ⟨cfg,hcf,-⟩
  · cases hc
  · exact junk_notMem_of_config (ne_of_eq_of_ne hcf (Option.some_ne_none cfg))
      (junk_mem_scanFrom rfl (fun hq => (hp _ hq).2 rfl) hc)

theorem scan_trim (h : Bare s) : scan (trim s) = scan s := by
  rw [scan_words h.plain,scan_words (h.of_subset (mem_of_mem_trim s)).plain,splitWhitespace_trim]

theorem scan_fold_of_trim (hv : Bare v) (hl : Bare l) (h : syncNamesEquivalent u (trim v) l) :
    (scan v).map Token.fold = (scan l).map Token.fold := by
  rw [← scan_trim hv]
  exact scan_fold_of_equivalent (hv.of_subset (mem_of_mem_trim v)) hl h

theorem mem_trimmed {p : Char → Bool} (hc : c ∈ s) (hp : p c = false) : c ∈ (s.dropWhile p).rdropWhile p := by
  have hd : ∀ t : Text, c ∈ t → c ∈ t.dropWhile p := by
    intro t ht
    rw [← takeWhile_append_dropWhile (p := p) (l := t),mem_append] at ht
    exact ht.resolve_left fun h => by simp [mem_takeWhile_imp h] at hp
  exact List.mem_reverse.2 (hd _ (List.mem_reverse.2 (hd s hc)))

theorem blank_of_equivalent_nil (h : syncNamesEquivalent u s []) (hc : c ∈ s)
    (hne : c ≠ '"' ∧ c ≠ '\'') : whitespace c := by
  by_contra hb
  rw [Bool.not_eq_true] at hb
  have hm : c ∈ strip s := mem_trimmed (mem_trimmed (mem_trimmed hc hb) (by simpa using hne.1)) (by simpa using hne.2)
  obtain ⟨w,hw,-⟩ := exists_word hm hb
  obtain ⟨w,ws,hws⟩ := exists_cons_of_ne_nil (ne_nil_of_mem hw)
  rw [syncNamesEquivalent,hws] at h
  cases h

/-- What the code asks for: nothing, or a counted list in parentheses whose names are ASCII and
whose first begins with a `p`. -/
structure Listed (l : Text) : Prop where
  bare : Bare l
  shape : l = [] ∨ (∃ x, l = 'F'::x++[')']) ∧ ∃ cfg q, meaning l = some cfg ∧
    cfg.names.head? = some ('p'::q) ∧ ∀ n ∈ cfg.names, ∀ c ∈ n, c.toNat < 128

theorem settled_of_split {setting : Setting} {p q : Text}
    (h : splitOnce '\t' (setting.live++ '\t'::setting.onReload) = some (p,q)) :
    setting.settled u l = (syncNamesEquivalent u (trim p) l && syncNamesEquivalent u (trim q) l) := by
  simp [Setting.settled,Setting.nowAndOnReload,h]

theorem eq_nil_of_config {ts us : List Token} (h : config (ts++.closing::us) ≠ none) : us = [] := by
  obtain ⟨items,heq,hne⟩ := config_tokens h
  have hc : Token.closing ∉ items := fun hm => (hne _ hm).1 rfl
  rcases heq with heq | heq
  · exact absurd (heq ▸ by simp) hc
  · rcases eq_nil_or_concat us with hus | ⟨us,t,rfl⟩
    · exact hus
    · have hl : (ts++.closing::us)++[t] = items++[.closing] := by simpa using heq
      rw [← (append_inj' hl rfl).1] at hc
      simp at hc

/-- The list ends in a parenthesis, and nothing follows one in a configuration. -/
theorem rest_eq_nil {x : Text} {ts : List Token} (hl : Bare (x++[')']))
    (h : (scan v).map Token.fold = (scan (x++[')'])).map Token.fold)
    (hc : config (scan v++ts) ≠ none) : ts = [] := by
  have hcl : scan (x++[')']) = scan x++[.closing] :=
    scanFrom_append rfl (fun hq => (hl _ (mem_append_left _ hq)).2.1 rfl) (by decide)
  rw [hcl,map_append] at h
  obtain ⟨us,us',hus,-,hla⟩ := List.map_eq_append_iff.1 h
  obtain ⟨t,rfl,ht⟩ := map_eq_singleton_iff.1 hla
  obtain rfl := fold_eq_closing.1 ht
  rw [hus,append_assoc,singleton_append] at hc
  exact eq_nil_of_config hc

/-- A reply cut at a tab of the live value itself is still recognised soundly: what follows the tab has no
token. -/
theorem sameMeaning_of_settled {setting : Setting} (hpla : Plain setting.live) (hl : Listed l)
    (h : setting.settled u l) : SameMeaning setting.live l := by
  have hb := bare_of_held hpla setting.held
  by_cases hta : '\t' ∈ setting.live
  · obtain ⟨p,r,hli,hp⟩ := eq_append_cons_of_mem hta
    have hpb : Bare p := hb.of_subset (by simp +contextual [hli])
    have hrb : Bare r := hb.of_subset (by simp +contextual [hli])
    have hs : scan setting.live = scan p++scan r := by
      rw [hli,scan_append_space (fun hq => (hpb _ hq).2.1 rfl) (by decide)]
    have hsp : splitOnce '\t' (setting.live++ '\t'::setting.onReload) = some (p,r++ '\t'::setting.onReload) := by
      rw [hli,append_assoc,cons_append,splitOnce_append hp]
    rw [settled_of_split hsp,Bool.and_eq_true] at h
    have hpl := scan_fold_of_trim hpb hl.bare h.1
    suffices hr : scan r = [] by
      exact sameMeaning_of_scan (by rw [hs,hr,append_nil,hpl])
    rcases hl.shape with rfl | ⟨⟨x,rfl⟩,-⟩
    · have hbl : ∀ c ∈ r, whitespace c := by
        intro c hc
        by_contra hn
        rw [Bool.not_eq_true] at hn
        have hm : c ∈ trim (r++ '\t'::setting.onReload) := mem_trimmed (mem_append_left _ hc) hn
        simp [blank_of_equivalent_nil h.2 hm (hrb c hc).2] at hn
      have hw := splitWhitespace_blank_append (t := []) hbl
      rw [append_nil] at hw
      rw [scan_words hrb.plain,hw]
      rfl
    · rcases setting.held with hni | ⟨cfg,hcf,-⟩
      · simp [hni] at hta
      · rw [meaning,hs] at hcf
        exact rest_eq_nil hl.bare hpl (ne_of_eq_of_ne hcf (Option.some_ne_none cfg))
  · rw [settled_of_split (splitOnce_append hta),Bool.and_eq_true] at h
    exact sameMeaning_of_scan (scan_fold_of_trim hb hl.bare h.1)

/-- What `trim`, `trim_matches('"')` and `trim_matches('\'')` take from the ends. -/
def edge (c : Char) : Prop := whitespace c ∨ c = '"' ∨ c = '\''

def Edged (s core : Text) : Prop := ∃ a b, s = a++core++b ∧ ∀ c ∈ a++b, edge c

theorem edged_trimmed {p : Char → Bool} (hp : ∀ c, p c → edge c) (s : Text) :
    Edged s ((s.dropWhile p).rdropWhile p) := by
  refine ⟨s.takeWhile p,(s.dropWhile p).rtakeWhile p,?_,?_⟩
  · rw [append_assoc,rdropWhile_append_rtakeWhile,takeWhile_append_dropWhile]
  · intro c hc
    rcases mem_append.1 hc with hc | hc
    · exact hp c (mem_takeWhile_imp hc)
    · exact hp c (mem_rtakeWhile_imp hc)

theorem Edged.trans {s t core : Text} (h : Edged s t) (h' : Edged t core) : Edged s core := by
  obtain ⟨a,b,rfl,hab⟩ := h
  obtain ⟨a',b',rfl,hab'⟩ := h'
  refine ⟨a++a',b'++b,by simp,fun c hc => ?_⟩
  simp only [mem_append] at hab hab' hc
  grind

theorem edged_trim (s : Text) : Edged s (trim s) := edged_trimmed (fun _ h => .inl h) s

theorem edged_strip (s : Text) : Edged s (strip s) :=
  ((edged_trim s).trans (edged_trimmed (by simp [edge]) _)).trans (edged_trimmed (by simp [edge]) _)

theorem sameMeaning_high (hl : Listed l) (hh : Held v) (hm : SameMeaning v l) (hc : c ∈ v) :
    c.toNat < 128 := by
  by_contra hhi
  rcases hh with rfl | ⟨cv,hcv,-⟩
  · cases hc
  rcases hl.shape with rfl | ⟨-,cfg,q,hcf,-,ha⟩
  · rw [SameMeaning,hcv] at hm
    cases hm
  rw [SameMeaning,hcv,hcf] at hm
  have hn : cv.names.map lower = cfg.names.map lower := congrArg Config.names (Option.some_inj.1 hm)
  rcases mem_scanFrom_of_high (m := .gap) (not_lt.1 hhi) hc with hj | ⟨n,hnm,hcn⟩
  · exact junk_notMem_of_config (ne_of_eq_of_ne hcv (Option.some_ne_none cv)) hj
  have hln : lower n ∈ cfg.names.map lower := hn ▸ mem_map_of_mem (mem_names_of_config hcv hnm)
  obtain ⟨n',hn',heq⟩ := mem_map.1 hln
  have hcl : c ∈ lower n' := heq ▸ toLower_of_high (not_lt.1 hhi) ▸ mem_map_of_mem hcn
  obtain ⟨d,hd,rfl⟩ := mem_map.1 hcl
  have hda := ha n' hn' d hd
  rcases toLower_cases d with h | ⟨i,hi,rfl,h⟩
  · exact hhi (by rwa [h])
  · rw [h] at hhi
    interval_cases i <;> simp at hhi

/-- The stripped text has the words of the list, and so no quote either. -/
theorem bare_of_words (hl : Bare l) (ha : ∀ c ∈ s, c.toNat < 128)
    (hw : (splitWhitespace s).map lower = (splitWhitespace l).map lower) : Bare s := by
  have hq : ∀ c ∈ s, whitespace c = false → ∃ d ∈ l, d.toLower = c.toLower := by
    intro c hc hb
    obtain ⟨w,hws,hcw⟩ := exists_word hc hb
    obtain ⟨w',hw',heq⟩ := mem_map.1 (hw ▸ mem_map_of_mem (f := lower) hws)
    obtain ⟨d,hd,hdc⟩ := mem_map.1 (heq ▸ mem_map_of_mem (f := Char.toLower) hcw : c.toLower ∈ lower w')
    exact ⟨d,mem_of_mem_splitWhitespace l w' hw' d hd,hdc⟩
  have hk : ∀ q ∈ ['"','\''], ∀ d : Char, d.toLower = q.toLower → d = q := by
    intro q hq d hd
    rcases toLower_cases d with h | ⟨i,hi,rfl,h⟩
    · rw [← h,hd]
      fin_cases hq <;> rfl
    · rw [h] at hd
      fin_cases hq <;> interval_cases i <;> simp at hd
  have hne : ∀ q ∈ ['"','\''], q ∉ s := by
    intro q hqm hqs
    obtain ⟨d,hd,hdq⟩ := hq q hqs (by fin_cases hqm <;> rfl)
    have hdl := hl d hd
    rw [hk q hqm d hdq] at hdl
    fin_cases hqm <;> simp at hdl
  exact fun c hc => ⟨ha c hc,fun h => hne '"' (by simp) (h ▸ hc),fun h => hne '\'' (by simp) (h ▸ hc)⟩

theorem scan_blank_append (h : ∀ c ∈ s, isSpace c) (t : Text) : scan (s++t) = scan t := by
  induction s with
  | nil => rfl
  | cons c s ih =>
    obtain ⟨hc,hs⟩ := forall_mem_cons.1 h
    exact (scan_append_space (s := []) (by simp) hc).trans (ih hs)

/-- A first name in quotes would begin with a quote, a blank or an `f`. -/
theorem blank_before {a r : Text} (hl : Listed l) (hne : l ≠ []) (hh : Held (a++r))
    (hm : SameMeaning (a++r) l) (ha : ∀ c ∈ a, edge c)
    (hr : ∀ d, r.head? = some d → d.toLower ≠ 'p') : ∀ c ∈ a, isSpace c := by
  have has : ∀ c ∈ a, c.toNat < 128 := fun c hc => sameMeaning_high hl hh hm (mem_append_left r hc)
  obtain ⟨-,cfg,q,hcf,hhe,-⟩ := hl.shape.resolve_left hne
  by_contra hn
  have hd := takeWhile_append_dropWhile (p := isSpace) (l := a)
  rcases hdr : a.dropWhile isSpace with _ | ⟨c,a'⟩
  · rw [hdr,append_nil] at hd
    rw [← hd] at hn
    exact hn fun c hc => mem_takeWhile_imp hc
  rw [hdr] at hd
  have hcs : isSpace c = false := by
    simpa [hdr] using head_dropWhile_not isSpace (l := a) (by simp [hdr])
  have hca : c ∈ a := by
    rw [← hd]
    simp
  have hsc : scan (a++r) = scan (c::(a'++r)) := by
    rw [← hd,append_assoc,scan_blank_append (fun c hc => mem_takeWhile_imp hc),cons_append]
  rcases hh with hni | ⟨cv,hcv,-⟩
  · rw [(append_eq_nil_iff.1 hni).1] at hca
    cases hca
  rw [SameMeaning,hcv,hcf] at hm
  rw [meaning,hsc] at hcv
  have hnj := junk_notMem_of_config (ne_of_eq_of_ne hcv (Option.some_ne_none cv))
  rcases ha c hca with hw | rfl | rfl
  · rw [← isSpace_eq_whitespace (has c hca),hcs] at hw
    cases hw
  · obtain ⟨tok,ts,hts,htok⟩ := scan_quote (a'++r)
    rw [hts] at hcv hnj
    rcases htok with rfl | ⟨n,rfl,hn⟩
    · exact hnj mem_cons_self
    have hhd : (cv.names.map lower).head? = (cfg.names.map lower).head? :=
      congrArg (fun c : Config => c.names.head?) (Option.some_inj.1 hm)
    rw [head?_map,head?_map,names_head hcv,hhe] at hhd
    rcases n with _ | ⟨d,n⟩
    · cases hhd
    have hdp : d.toLower = 'p' := (List.cons.inj (Option.some_inj.1 hhd)).1
    rcases hn d rfl with rfl | hh
    · cases hdp
    rcases a' with _ | ⟨e,a'⟩
    · exact hr d hh hdp
    · cases hh
      have hda : d ∈ a := by
        rw [← hd]
        simp
      rcases ha d hda with hw | rfl | rfl
      · rw [← isSpace_eq_whitespace (has d hda),← (toLower_class d).1,hdp] at hw
        cases hw
      · cases hdp
      · cases hdp
  · exact hnj mem_cons_self

/-- A value that means the list and is taken for it, as a whole or up to a blank, is plain. -/
theorem plain_of_sameMeaning {p t core : Text} (hl : Listed l) (hed : Edged p core)
    (hst : sameTokens u (splitWhitespace core) (splitWhitespace (strip l)))
    (hh : Held (p++t)) (ht : ∀ c, t.head? = some c → isSpace c) (hm : SameMeaning (p++t) l) :
    Plain (p++t) := by
  have hasc : ∀ c ∈ p++t, c.toNat < 128 := fun c hc => sameMeaning_high hl hh hm hc
  by_cases hne : l = []
  · subst hne
    rcases hh with hni | ⟨cv,hcv,-⟩
    · simp [hni,Plain]
    · rw [SameMeaning,hcv] at hm
      cases hm
  obtain ⟨a,b,rfl,hab⟩ := hed
  obtain ⟨⟨x,rfl⟩,-⟩ := hl.shape.resolve_left hne
  rw [strip_of_bare hl.bare,splitWhitespace_trim] at hst
  have hca : ∀ c ∈ core, c.toNat < 128 := fun c hc => hasc c (by simp [hc])
  have hw := lower_of_sameTokens hst
    (fun w hw c hc => hca c (mem_of_mem_splitWhitespace core w hw c hc))
    fun w hw c hc => (hl.bare c (mem_of_mem_splitWhitespace _ w hw c hc)).1
  have hcb := bare_of_words hl.bare hca hw
  have hsc := scan_fold_of_words hcb.plain hl.bare.plain hw
  obtain ⟨f,fs,hf⟩ := splitWhitespace_cons (c := 'F') (by decide) (x++[')'])
  rw [append_assoc,append_assoc] at hh hm
  have ha : ∀ c ∈ a, isSpace c := by
    refine blank_before hl hne hh hm (fun c hc => hab c (mem_append_left b hc)) fun d hd hdp => ?_
    rw [cons_append,hf] at hw
    rcases core with _ | ⟨e,core⟩
    · cases hw
    · cases hd
      have hsp : whitespace d = false := by
        rw [← isSpace_eq_whitespace (hca d mem_cons_self),← (toLower_class d).1,hdp]
        decide
      obtain ⟨w,ws,hws⟩ := splitWhitespace_cons hsp core
      rw [hws] at hw
      have := (List.cons.inj (List.cons.inj hw).1).1
      rw [hdp] at this
      cases this
  have hz : ∀ c ∈ b++t, isSpace c := by
    rcases hbt : b++t with _ | ⟨e,z⟩
    · simp
    have hec : identCont e = false := by
      rcases b with _ | ⟨e',b⟩
      · simp only [nil_append] at hbt
        exact (space_cases (ht e (by rw [hbt]; rfl))).1
      · cases hbt
        have hea : e.toNat < 128 := hasc e (by simp)
        rcases hab e (by simp) with hw | rfl | rfl
        · exact (space_cases ((isSpace_eq_whitespace hea).trans hw)).1
        · decide
        · decide
    rw [hbt] at hh
    rcases hh with hni | ⟨cv,hcv,-⟩
    · simp at hni
    rw [meaning,scan_blank_append ha,scan,
      scanFrom_append rfl (fun hq => (hcb _ hq).2.1 rfl) hec] at hcv
    exact (scanFrom_eq_nil (rest_eq_nil hl.bare hsc
      (ne_of_eq_of_ne hcv (Option.some_ne_none cv)))).2
  intro c hc
  refine ⟨hasc c hc,?_⟩
  simp only [append_assoc,mem_append] at hc
  rcases hc with hc | hc | hc
  · exact (space_cases (ha c hc)).2.1
  · exact (hcb c hc).2.1
  · exact (space_cases (hz c (mem_append.2 hc))).2.1

theorem isDigit_repr (n : ℕ) : ∀ c ∈ (toString n).toList, c.isDigit := by
  intro c hc
  rw [Nat.toString_eq_repr,Nat.toList_repr] at hc
  exact Nat.isDigit_of_mem_toDigits (b := 10) (by decide) (by decide) hc

theorem bare_repr (n : ℕ) : Bare (toString n).toList := by
  intro c hc
  have hd : 48 ≤ c.toNat ∧ c.toNat ≤ 57 := by
    simpa [Char.isDigit,UInt32.le_iff_toNat_le] using isDigit_repr n c hc
  refine ⟨by omega,?_,?_⟩ <;> rintro rfl <;> simp at hd

theorem bare_intercalate {sep : Text} {ts : List Text} (hs : Bare sep) (h : ∀ t ∈ ts, Bare t) :
    Bare (sep.intercalate ts) := by
  induction ts with
  | nil => simp [Bare]
  | cons t ts ih =>
    cases ts with
    | nil => simpa using h
    | cons t' ts =>
      obtain ⟨ht,hts⟩ := forall_mem_cons.1 h
      rw [intercalate_cons_cons]
      exact forall_mem_append.2 ⟨forall_mem_append.2 ⟨ht,hs⟩,ih hts⟩

/-- A name as the nodes bear it. -/
structure Peer (n : Text) : Prop where
  starts : ∃ q, n = 'p'::q
  bare : Bare n
  ident : ∀ c ∈ n, identCont c

theorem peer_nodeName (id : NodeId) : Peer (nodeName id).toList := by
  rw [nodeName,String.toList_append]
  refine ⟨⟨_,rfl⟩,?_,?_⟩
  · exact forall_mem_append.2 ⟨forall_iff_forall_mem.1 (by decide),bare_repr id.val⟩
  · refine forall_mem_append.2 ⟨forall_iff_forall_mem.1 (by decide),fun c hc => ?_⟩
    simp [identCont,isDigit_repr id.val c hc]

theorem scan_peer {n t : Text} (h : Peer n) (hc : identCont c = false) :
    scan (n++c::t) = .name n::scan (c::t) := by
  rw [scan,scanFrom_append rfl (fun hq => (h.bare _ hq).2.1 rfl) hc]
  obtain ⟨⟨q,rfl⟩,-,hi⟩ := h
  have hs : scanFrom .gap ('p'::q) = scanFrom (.ident ['p']) q := rfl
  rw [hs,scanFrom_ident fun c hc => hi c (mem_cons_of_mem _ hc)]
  rfl

theorem standbyList_peers {ns : List Text} (hne : ns ≠ []) (h : ∀ n ∈ ns, Peer n) :
    standbyList (scan ((", ".toList).intercalate ns++[')'])) = some (ns,[.closing]) := by
  induction ns with
  | nil => exact absurd rfl hne
  | cons n ns ih =>
    obtain ⟨hn,hns⟩ := forall_mem_cons.1 h
    cases ns with
    | nil =>
      rw [intercalate_singleton,scan_peer hn (by decide)]
      rfl
    | cons n' ns =>
      have hs : scan (", ".toList++((", ".toList).intercalate (n'::ns)++[')'])) =
          .comma::scan ((", ".toList).intercalate (n'::ns)++[')']) := rfl
      rw [intercalate_cons_cons,append_assoc,append_assoc]
      refine (congrArg standbyList (scan_peer hn (by decide))).trans ?_
      refine (congrArg (fun ts => standbyList (.name n::ts)) hs).trans ?_
      simp only [standbyList,standbyName,ih (by simp) hns,Option.bind_some,Option.map_some]

theorem scan_repr (n : ℕ) (hc : identCont c = false) (t : Text) :
    scan ((toString n).toList++c::t) = .num (toString n).toList::scan (c::t) := by
  rw [scan,scanFrom_append rfl (fun hq => (bare_repr n _ hq).2.1 rfl) hc]
  rcases hd : (toString n).toList with _ | ⟨d,ds⟩
  · rw [Nat.toString_eq_repr,Nat.toList_repr] at hd
    exact absurd hd Nat.toDigits_ne_nil
  have hds : ∀ c ∈ d::ds, c.isDigit := hd ▸ isDigit_repr n
  have hb : begins d = ([],.digits [d]) := by
    have hdd := hds d mem_cons_self
    have hr : 48 ≤ d.toNat ∧ d.toNat ≤ 57 := by simpa [Char.isDigit,UInt32.le_iff_toNat_le] using hdd
    have hcl : ∀ k ≤ 9, begins (Char.ofNat (48+k)) = ([],.digits [Char.ofNat (48+k)]) := by
      intro k hk
      interval_cases k <;> rfl
    have := hcl (d.toNat-48) (by omega)
    rwa [Nat.add_sub_cancel' hr.1,Char.ofNat_toNat] at this
  simp [scanFrom,Mode.continues,Mode.token,hb,scanFrom_digits fun c hc => hds c (mem_cons_of_mem _ hc)]

/-- PostgreSQL reads in the list the method, the count and the names it was made of. -/
theorem meaning_peers (n : ℕ) {ns : List Text} (hne : ns ≠ []) (h : ∀ n ∈ ns, Peer n) :
    meaning ("FIRST ".toList++((toString n).toList++(" (".toList++
      ((", ".toList).intercalate ns++[')'])))) = some ⟨.priority,atoi (toString n).toList,ns⟩ := by
  have hf : ∀ t, scan ("FIRST ".toList++t) = .first::scan t := fun t => rfl
  have ho : ∀ t, scan (" (".toList++t) = .opening::scan t := fun t => rfl
  have hd := fun t => scan_repr n (c := ' ') (by decide) ('('::t)
  rw [meaning,hf]
  refine (congrArg (fun ts => config (.first::ts)) (hd _)).trans ?_
  refine (congrArg (fun ts => config (.first::.num _::ts)) (ho _)).trans ?_
  simp only [config,counted,standbyList_peers hne h,Option.bind_some,if_true]

theorem listed_syncStandbyList (voters : Finset NodeId) (selfId : NodeId) :
    Listed (syncStandbyList (peerVoterNames voters selfId)).toList := by
  have hp : ∀ n ∈ (peerVoterNames voters selfId).map String.toList, Peer n := by
    simp only [peerVoterNames,mem_map,Multiset.mem_sort,Multiset.mem_map]
    rintro _ ⟨_,⟨id,-,rfl⟩,rfl⟩
    exact peer_nodeName id
  rw [syncStandbyList]
  split_ifs with hz
  · exact ⟨by simp [Bare],.inl rfl⟩
  have hne : (peerVoterNames voters selfId).map String.toList ≠ [] := by
    intro hni
    rw [map_eq_nil_iff] at hni
    exact hz (by rw [hni]; rfl)
  let names := String.intercalate ", " (peerVoterNames voters selfId)
  have hs : ∀ n : ℕ, (s!"FIRST {n} ({names})").toList =
      "FIRST ".toList++((toString n).toList++(" (".toList++((", ".toList).intercalate
        ((peerVoterNames voters selfId).map String.toList)++[')']))) := by
    intro n
    change ("FIRST "++toString n++" ("++names++")").toList = _
    simp only [names,String.toList_append,String.toList_intercalate,append_assoc]
    rfl
  refine ⟨?_,.inr ⟨?_,?_⟩⟩
  · have hl : ∀ t ∈ ["FIRST "," (",")"], Bare t.toList := by simp [Bare]
    rw [hs]
    simp only [Bare,forall_mem_append]
    exact ⟨hl "FIRST " (by simp),bare_repr _,hl " (" (by simp),
      bare_intercalate (by simp [Bare]) fun n hn => (hp n hn).bare,hl ")" (by simp)⟩
  · rw [hs,← append_assoc,← append_assoc,← append_assoc]
    exact ⟨_,rfl⟩
  · obtain ⟨m,ms,hms⟩ := exists_cons_of_ne_nil hne
    obtain ⟨q,rfl⟩ := (hp m (hms ▸ mem_cons_self)).starts
    rw [hs,meaning_peers _ hne hp]
    refine ⟨_,q,rfl,by rw [hms]; rfl,fun n hn c hc => ((hp n hn).bare c hc).1⟩

/-- The list the code wants, as the cluster's voters and the leader give it. -/
def wanted (voters : Finset NodeId) (selfId : NodeId) : Text :=
  (syncStandbyList (peerVoterNames voters selfId)).toList

theorem sameMeaning_of_equivalent (hl : Listed l) (hh : Held v) (hp : Plain v)
    (h : syncNamesEquivalent u (trim v) l) : SameMeaning v l :=
  sameMeaning_of_scan (scan_fold_of_trim (bare_of_held hp hh) hl.bare h)

theorem sameMeaning_iff_plain (hl : Listed l) (hh : Held v) (h : syncNamesEquivalent u (trim v) l) :
    SameMeaning v l ↔ Plain v := by
  refine ⟨fun hm => ?_,fun hp => ?_⟩
  · rw [syncNamesEquivalent] at h
    have hp := plain_of_sameMeaning (t := []) hl ((edged_trim v).trans (edged_strip _)) h
    rw [append_nil] at hp
    exact hp hh (by simp) hm
  · exact sameMeaning_of_equivalent hl hh hp h

theorem settled_iff_plain {setting : Setting} (hl : Listed l) (h : setting.settled u l) :
    SameMeaning setting.live l ↔ Plain setting.live := by
  refine ⟨fun hm => ?_,fun hp => sameMeaning_of_settled hp hl h⟩
  have hh := setting.held
  by_cases hta : '\t' ∈ setting.live
  · obtain ⟨p,r,hli,hp⟩ := eq_append_cons_of_mem hta
    have hsp : splitOnce '\t' (setting.live++ '\t'::setting.onReload) =
        some (p,r++ '\t'::setting.onReload) := by
      rw [hli,append_assoc,cons_append,splitOnce_append hp]
    rw [settled_of_split hsp,Bool.and_eq_true] at h
    rw [hli] at hh hm ⊢
    rw [syncNamesEquivalent] at h
    exact plain_of_sameMeaning hl ((edged_trim p).trans (edged_strip _)) h.1 hh (by simp [isSpace]) hm
  · rw [settled_of_split (splitOnce_append hta),Bool.and_eq_true] at h
    exact (sameMeaning_iff_plain hl hh h.1).1 hm

theorem recognised_of_listed (hl : Listed l) (w : World) (e : Event) : recognised u l w e := by
  cases e with
  | configure setting => trivial
  | alter done =>
    intro hok
    simp only [step] at hok
    split_ifs at hok <;> simp at hok
  | probe answered =>
    intro hok
    simp only [step] at hok
    split_ifs at hok with hp hs
    · exact settled_iff_plain hl (Bool.and_eq_true_iff.1 hs).2
    · simp at hok
    · simp at hok
  | poll answered late =>
    intro hok
    simp only [step] at hok
    split_ifs at hok with hp ha he
    · simp at hok
    · exact sameMeaning_iff_plain hl w.setting.held he
    all_goals simp at hok

/-- A held value that is taken for the list means it exactly if it is ASCII and has no double quote,
and so does the setting that a call has read when it succeeds. -/
theorem wanted_recognised (u : Unicode) (voters : Finset NodeId) (selfId : NodeId) :
    (∀ v, Held v → syncNamesEquivalent u v (wanted voters selfId) = true →
        (SameMeaning v (wanted voters selfId) ↔ Plain v)) ∧
      ∀ setting es, Guarded (step u (wanted voters selfId)) (recognised u (wanted voters selfId))
        ⟨setting,entry (wanted voters selfId)⟩ es := by
  have hl := listed_syncStandbyList voters selfId
  constructor
  · intro v hh h
    refine ⟨fun hm => ?_,fun hp => ?_⟩
    · have hp := plain_of_sameMeaning (t := []) hl (edged_strip v) h
      rw [append_nil] at hp
      exact hp hh (by simp) hm
    · exact sameMeaning_of_scan (scan_fold_of_equivalent (bare_of_held hp hh) hl.bare h)
  · intro setting es
    exact guarded_of_forall (fun e _ w => recognised_of_listed hl w e) _

end Installed

section Samples

/-- Unicode's table on ASCII; the samples have no cased character outside it. -/
def asciiLowercase : Unicode := ⟨fun c => [c.toLower],fun _ _ => rfl⟩

theorem wanted_three : wanted {1,2,3} 1 = "FIRST 1 (pgbattery_node_2, pgbattery_node_3)".toList :=
  congrArg String.toList SyncMode.syncStandbyList_three

def spaced : Text := "first  1 (PGBATTERY_NODE_2, pgbattery_node_3)".toList

def spacedSetting : Setting := ⟨spaced,by decide +kernel,spaced⟩

/-- Other spacing and case are recognised, by the comparison and by a call. -/
theorem spaced_recognised :
    Held spaced ∧ syncNamesEquivalent asciiLowercase spaced (wanted {1,2,3} 1) = true ∧ Plain spaced ∧
      SameMeaning spaced (wanted {1,2,3} 1) ∧
      (run (step asciiLowercase (wanted {1,2,3} 1)) ⟨spacedSetting,entry (wanted {1,2,3} 1)⟩
        [.probe true]).map World.phase = some (.returned true) := by
  have hp : Plain spaced := forall_iff_forall_mem.1 (by decide)
  have he : syncNamesEquivalent asciiLowercase spaced (wanted {1,2,3} 1) := by
    rw [wanted_three]
    decide +kernel
  have hm := ((wanted_recognised asciiLowercase {1,2,3} 1).1 spaced spacedSetting.held he).2 hp
  refine ⟨spacedSetting.held,he,hp,hm,?_⟩
  rw [wanted_three]
  decide +kernel

/-- One name in double quotes, and a name that begins with a no-break space. -/
def mistaken : List Text :=
  ["\"FIRST 1 (pgbattery_node_2, pgbattery_node_3)\"".toList,
    "FIRST 1 (pgbattery_node_2,\u00a0pgbattery_node_3)".toList]

/-- Both are held by PostgreSQL and taken for the list, and neither means it. -/
theorem mistaken_for_list :
    mistaken.Forall fun v => Held v ∧
      syncNamesEquivalent asciiLowercase v (wanted {1,2,3} 1) = true ∧ ¬ SameMeaning v (wanted {1,2,3} 1) := by
  rw [wanted_three]
  rw [forall_iff_forall_mem]
  decide +kernel

end Samples
end SyncNames
end PgBattery
