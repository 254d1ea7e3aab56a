import PgBattery.Counter
import PgBattery.ReplicationSlots

/-! The hand-over of sequences at a cutover: the recipient's sequences are set past the values the donor
issued, and checked again before its fence lifts. -/
namespace PgBattery

abbrev I64 := {n : ℤ // -9223372036854775808 ≤ n ∧ n ≤ 9223372036854775807}

namespace I64

def clamp (n : ℤ) : I64 := ⟨max (-9223372036854775808) (min n 9223372036854775807),by omega⟩

def saturatingAdd (a b : I64) : I64 := clamp (a.val+b.val)

def zero : I64 := ⟨0,by decide⟩

end I64

namespace SequenceHandoff
open SqlReply Following List

section Sequences

abbrev Key := Text × Text

structure Sequence where
  key : Key
  counter : Counter
  lastValue : ℤ
  isCalled : Bool
  low_le : counter.low ≤ lastValue
  le_high : lastValue ≤ counter.high
  low_range : -9223372036854775808 ≤ counter.low
  high_range : counter.high ≤ 9223372036854775807

/-- Put the sequence at `v`, as having issued it; the bounds are checked. -/
def Sequence.setval (q : Sequence) (v : ℤ) : Option Sequence :=
  if h : q.counter.low ≤ v ∧ v ≤ q.counter.high then
    some {q with lastValue := v, isCalled := true, low_le := h.1, le_high := h.2}
  else none

def Sequence.nextval (q : Sequence) : Option (ℤ × Sequence) :=
  if q.isCalled then
    (q.counter.next q.lastValue).bind fun v => (q.setval v).map fun q' => (v,q')
  else some (q.lastValue,{q with isCalled := true})

/-- What the sequence is going to issue. -/
def Sequence.Issues (q : Sequence) (w : ℤ) : Prop :=
  q.isCalled = false ∧ w = q.lastValue ∨ q.counter.Later q.lastValue w

/-- The sequence after some more calls of `nextval`. -/
def Drawn : Sequence → Sequence → Prop := Relation.ReflTransGen fun q q' => ∃ v, q.nextval = some (v,q')

variable {q q' : Sequence} {v w : ℤ}

theorem setval_eq (h : q.setval v = some q') :
    q'.key = q.key ∧ q'.counter = q.counter ∧ q'.lastValue = v ∧ q'.isCalled := by
  rw [Sequence.setval] at h
  split_ifs at h
  cases h
  exact ⟨rfl,rfl,rfl,rfl⟩

theorem setval_isSome : (q.setval v).isSome ↔ q.counter.low ≤ v ∧ v ≤ q.counter.high := by
  rw [Sequence.setval]
  split_ifs with h
  · simp [h]
  · simpa using h

theorem issues_iff : q.Issues w ↔ ∃ v q', q.nextval = some (v,q') ∧ (w = v ∨ q'.Issues w) := by
  rw [Sequence.nextval]
  cases hc : q.isCalled with
  | false =>
    simp [Sequence.Issues,hc]
  | true =>
    simp only [Sequence.Issues,hc,Bool.true_eq_false,false_and,false_or,if_true]
    constructor
    · intro h
      have hn : ∃ v, q.counter.next q.lastValue = some v ∧ (w = v ∨ q.counter.Later v w) := by
        cases h with
        | next h => exact ⟨_,h,.inl rfl⟩
        | later h hw => exact ⟨_,h,.inr hw⟩
      obtain ⟨v,hv,hw⟩ := hn
      have hm := Counter.next_mem ⟨q.low_le,q.le_high⟩ hv
      obtain ⟨q',hq'⟩ := Option.isSome_iff_exists.1 (setval_isSome.2 hm)
      obtain ⟨-,hco,hl,hca⟩ := setval_eq hq'
      refine ⟨v,q',by rw [hv,Option.bind_some,hq',Option.map_some],?_⟩
      rw [hca,hco,hl]
      exact hw.imp id fun hw => .inr hw
    · rintro ⟨v,q',hn,hw⟩
      obtain ⟨v',hv',hs⟩ := Option.bind_eq_some_iff.1 hn
      obtain ⟨p,hp,hpa⟩ := Option.map_eq_some_iff.1 hs
      cases hpa
      obtain ⟨-,hco,hl,hca⟩ := setval_eq hp
      rw [hca,hco,hl] at hw
      rcases hw with rfl | ⟨hf,-⟩ | hw
      · exact .next hv'
      · cases hf
      · exact .later hv' hw

theorem Drawn.issues (h : Drawn q q') (hw : q'.Issues w) : q.Issues w := by
  induction h using Relation.ReflTransGen.head_induction_on with
  | refl => exact hw
  | head hs _ ih =>
    obtain ⟨v,hv⟩ := hs
    exact issues_iff.2 ⟨v,_,hv,.inr ih⟩

theorem nextval_eq (h : q.nextval = some (v,q')) :
    q'.key = q.key := by
  rw [Sequence.nextval] at h
  split_ifs at h
  · obtain ⟨v',-,hs⟩ := Option.bind_eq_some_iff.1 h
    obtain ⟨p,hp,hpa⟩ := Option.map_eq_some_iff.1 hs
    cases hpa
    exact (setval_eq hp).1
  · cases h
    rfl

theorem Drawn.key_eq (h : Drawn q q') : q'.key = q.key := by
  induction h with
  | refl => rfl
  | tail _ hs ih =>
    obtain ⟨v,hv⟩ := hs
    rw [nextval_eq hv,ih]

end Sequences
variable {l l' : List Sequence}

section Handoff

/-- One user sequence and the last value issued from it. -/
structure SequenceValue where
  key : Key
  lastValue : I64
  deriving DecidableEq

/-- The sequences of one database, each once. -/
structure Recipient where
  sequences : List Sequence
  distinct : (sequences.map Sequence.key).Nodup

inductive SetvalError
  | undefinedTable
  | outOfBounds
  deriving DecidableEq

def setvalAt (key : Key) (target : ℤ) : List Sequence → Except SetvalError (List Sequence)
  | [] => .error .undefinedTable
  | q::sequences =>
    if q.key = key then
      match q.setval target with
      | none => .error .outOfBounds
      | some q' => .ok (q'::sequences)
    else (setvalAt key target sequences).map (q::·)

theorem map_key_setvalAt {key : Key} {target : ℤ} (h : setvalAt key target l = .ok l') :
    l'.map Sequence.key = l.map Sequence.key := by
  induction l generalizing l' with
  | nil => cases h
  | cons q l ih =>
    rw [setvalAt] at h
    split_ifs at h with hk
    · cases hq : q.setval target with
      | none => simp [hq] at h
      | some q' =>
        simp only [hq,Except.ok.injEq] at h
        rw [← h,map_cons,map_cons,(setval_eq hq).1]
    · cases hl : setvalAt key target l with
      | error e => simp [hl,Except.map] at h
      | ok l'' =>
        simp only [hl,Except.map,Except.ok.injEq] at h
        rw [← h,map_cons,map_cons,ih hl]

/-- `SELECT setval(…::regclass, target, true)`. -/
def Recipient.setval (r : Recipient) (key : Key) (target : ℤ) : Except SetvalError Recipient :=
  match h : setvalAt key target r.sequences with
  | .error e => .error e
  | .ok sequences => .ok ⟨sequences,by rw [map_key_setvalAt h]; exact r.distinct⟩

/-- Past everything the donor issued, with headroom, and never below 1. -/
def sequenceAdvanceTarget (lastValue margin : I64) : I64 :=
  ⟨max (I64.saturatingAdd lastValue margin).val 1,by
    have h := (I64.saturatingAdd lastValue margin).property
    omega⟩

structure AdvanceSequencesRequest where
  sequences : List SequenceValue
  margin : I64

structure AdvanceSequencesResponse where
  success : Bool
  advanced : ℕ
  message : Option String
  deriving DecidableEq

def qualified (key : Key) : String := s!"{String.ofList key.1}.{String.ofList key.2}"

variable (describe : SetvalError → String)

/-- `describe` is PostgreSQL's wording of its error. -/
def advanceFrom (margin : I64) : ℕ → List SequenceValue → Recipient →
    AdvanceSequencesResponse × Recipient
  | advanced, [], r => (⟨true,advanced,none⟩,r)
  | advanced, seq::rows, r =>
    let target := sequenceAdvanceTarget seq.lastValue margin
    match r.setval seq.key target.val with
    | .error e => (⟨false,advanced,
        some s!"advancing sequence {qualified seq.key} to {target.val} failed: {describe e}"⟩,r)
    | .ok r => advanceFrom margin (advanced+1) rows r

def advanceSequences (pg : Option Recipient) (body : AdvanceSequencesRequest) :
    AdvanceSequencesResponse × Option Recipient :=
  if body.margin.val < 0 then
    (⟨false,0,some s!"margin must be non-negative, got {body.margin.val}"⟩,pg)
  else match pg with
    | none => (⟨false,0,some "no PostgreSQL supervisor on this node"⟩,none)
    | some r =>
      let result := advanceFrom describe body.margin 0 body.sequences r
      (result.1,some result.2)

/-- `LIKE 'pg_…%'`, where the underscore stands for any character. -/
def likePg (word : Text) (schema : Text) : Bool := "pg".toList.isPrefixOf schema &&
  2 < schema.length && word.isPrefixOf (schema.drop 3)

def userSchema (schema : Text) : Bool :=
  !(["pg_catalog".toList,"information_schema".toList,"pgbattery".toList].contains schema) &&
    !likePg "toast".toList schema && !likePg "temp".toList schema

/-- A sequence never called has no last value and reads 0. -/
def Sequence.row (q : Sequence) : SequenceValue where
  key := q.key
  lastValue := if q.isCalled then
      ⟨q.lastValue,q.low_range.trans q.low_le,q.le_high.trans q.high_range⟩
    else I64.zero

def Recipient.rows (r : Recipient) : List SequenceValue :=
  (r.sequences.filter fun q => userSchema q.key.1).map Sequence.row

def sequenceGaps (mine donor : List SequenceValue) : List String :=
  mine.filterMap fun mine =>
    match donor.find? fun d => d.key = mine.key with
    | none => some s!"{qualified mine.key} has no donor value to clear"
    | some d =>
      if mine.lastValue.val ≤ d.lastValue.val then
        some s!"{qualified mine.key} is at {mine.lastValue.val}, the donor issued {d.lastValue.val}"
      else none

theorem sequenceGaps_eq_nil {mine donor : List SequenceValue} : sequenceGaps mine donor = [] ↔
    ∀ m ∈ mine, ∃ d, donor.find? (fun d => d.key = m.key) = some d ∧
      d.lastValue.val < m.lastValue.val := by
  rw [sequenceGaps,filterMap_eq_nil_iff]
  refine forall₂_congr fun m _ => ?_
  cases donor.find? fun d => d.key = m.key with
  | none => simp
  | some d => simp

end Handoff

section Rows

/-- `s.parse::<i64>()`. -/
def parseI64 (s : Text) : Option I64 :=
  let n : Option ℤ := match s with
    | '-'::digits => if digits.head? = some '+' then none else (parseU64 digits).map fun n : U64 => -n.val
    | _ => (parseU64 s).map fun n : U64 => n.val
  n.bind fun n => if h : -9223372036854775808 ≤ n ∧ n ≤ 9223372036854775807 then some ⟨n,h⟩ else none

def parseSequenceValueLine (line : Text) : Option SequenceValue := do
  let (rest,value) ← rsplitOnce '|' line
  let (schema,name) ← splitOnce '|' rest
  if '|' ∈ schema ∨ '|' ∈ name then none
  else (parseI64 (trim value)).map fun v => ⟨(schema,name),v⟩

/-- The rows of a reply to `DONOR_SEQUENCE_VALUES_SQL`, or the line that is none. -/
def readSequences (reply : Text) : Except Text (List SequenceValue) :=
  (sqlLines reply).mapM fun line => (parseSequenceValueLine line).elim (.error line) .ok

def i64Text (n : I64) : Text := (if n.val < 0 then ['-'] else [])++Nat.toDigits 10 n.val.natAbs

def SequenceValue.text (row : SequenceValue) : Text :=
  row.key.1++ '|'::(row.key.2++ '|'::i64Text row.lastValue)

theorem parseI64_i64Text (n : I64) : parseI64 (i64Text n) = some n := by
  obtain ⟨n,hn⟩ := n
  have hlt : n.natAbs < 18446744073709551616 := by omega
  have hp : parseU64 (Nat.toDigits 10 n.natAbs) = some ⟨n.natAbs,hlt⟩ :=
    ReplicationSlots.parseU64_eq (fun c hc => ReplicationSlots.isDigit_of_mem_toDigits hc)
      Nat.toDigits_ne_nil _ Nat.ofDigitChars_ten_toDigits
  have hs : ∀ c : Char, c.isDigit = false → (Nat.toDigits 10 n.natAbs).head? ≠ some c := by
    intro c hc hh
    have hd := ReplicationSlots.isDigit_of_mem_toDigits (mem_of_mem_head? hh)
    rw [hc] at hd
    cases hd
  by_cases hneg : n < 0
  · have he : -(n.natAbs : ℤ) = n := by omega
    have ht : i64Text ⟨n,hn⟩ = '-'::Nat.toDigits 10 n.natAbs := by simp [i64Text,hneg]
    simp only [ht,parseI64,if_neg (hs '+' (by decide)),hp,Option.map_some,Option.bind_some,he]
    exact dif_pos hn
  · have he : (n.natAbs : ℤ) = n := by omega
    have ht : i64Text ⟨n,hn⟩ = Nat.toDigits 10 n.natAbs := by simp [i64Text,hneg]
    rw [ht,parseI64]
    · simp only [hp,Option.map_some,Option.bind_some,he]
      exact dif_pos hn
    · exact fun digits hd => hs '-' (by decide) (by rw [hd]; rfl)

theorem plain_of_mem_i64Text {n : I64} {c : Char} (h : c ∈ i64Text n) :
    c ≠ '|' ∧ whitespace c = false := by
  rcases mem_append.1 h with hm | hm
  · split_ifs at hm
    · rw [mem_singleton.1 hm]
      decide
    · cases hm
  · have hd := ReplicationSlots.isDigit_of_mem_toDigits hm
    refine ⟨?_,whitespace_of_isDigit hd⟩
    rintro rfl
    cases hd

/-- A row is read back as it is, and refused if a name has the separator in it. -/
theorem parseSequenceValueLine_text (row : SequenceValue) : parseSequenceValueLine row.text =
    if '|' ∈ row.key.1 ∨ '|' ∈ row.key.2 then none else some row := by
  obtain ⟨⟨schema,name⟩,v⟩ := row
  have hr : rsplitOnce '|' (schema++ '|'::name++ '|'::i64Text v) = some (schema++ '|'::name,i64Text v) :=
    rsplitOnce_append fun hm => (plain_of_mem_i64Text hm).1 rfl
  have ht : trim (i64Text v) = i64Text v := trim_eq_self fun c hc => (plain_of_mem_i64Text hc).2
  rw [append_assoc,cons_append] at hr
  simp only [parseSequenceValueLine,SequenceValue.text,hr]
  by_cases hs : '|' ∈ schema
  · obtain ⟨a,b,rfl,ha⟩ := List.eq_append_cons_of_mem hs
    have hsp := splitOnce_append (t := b++ '|'::name) ha
    simp only [append_assoc,cons_append] at hsp ⊢
    simp [hsp]
  · simp [splitOnce_append hs,hs,ht,parseI64_i64Text]

theorem readSequences_render {rows : List SequenceValue} (h : ∀ row ∈ rows,
    ('|' ∉ row.key.1 ∧ '|' ∉ row.key.2) ∧ '\n' ∉ row.text ∧ trim row.text = row.text) :
    readSequences (render (rows.map SequenceValue.text)) = .ok rows := by
  have hl : sqlLines (render (rows.map SequenceValue.text)) = rows.map SequenceValue.text := by
    cases rows with
    | nil => rfl
    | cons row rows =>
      have hn : ∀ text ∈ (row::rows).map SequenceValue.text, '\n' ∉ text :=
        forall_mem_map.2 fun r hr => (h r hr).2.1
      have ht : ((row::rows).map SequenceValue.text).map trim = (row::rows).map SequenceValue.text := by
        rw [map_map]
        exact map_congr_left fun r hr => (h r hr).2.2
      rw [sqlLines,lines_render (by simp) hn,ht,filter_eq_self]
      exact forall_mem_map.2 fun r _ => by simp [SequenceValue.text]
  rw [readSequences,hl]
  clear hl
  induction rows with
  | nil => rfl
  | cons row rows ih =>
    have hp : parseSequenceValueLine row.text = some row := by
      rw [parseSequenceValueLine_text,if_neg]
      exact not_or.2 (h row mem_cons_self).1
    rw [map_cons,mapM_cons,hp,ih fun r hr => h r (mem_cons_of_mem _ hr)]
    rfl

end Rows

section Advance
variable {describe : SetvalError → String} {margin : I64} {r r' : Recipient}

def moved (key : Key) (target : ℤ) (q : Sequence) : Sequence :=
  if key = q.key then (q.setval target).getD q else q

theorem moved_eq (key : Key) (target : ℤ) (q : Sequence) :
    (moved key target q).key = q.key ∧ (moved key target q).counter = q.counter := by
  rw [moved]
  split_ifs
  · cases hq : q.setval target with
    | none => exact ⟨rfl,rfl⟩
    | some q' => exact ⟨(setval_eq hq).1,(setval_eq hq).2.1⟩
  · exact ⟨rfl,rfl⟩

def Takes (l : List Sequence) (key : Key) (target : ℤ) : Prop :=
  ∃ q ∈ l, q.key = key ∧ q.counter.low ≤ target ∧ target ≤ q.counter.high

theorem takes_map {f : Sequence → Sequence} (hf : ∀ q, (f q).key = q.key ∧ (f q).counter = q.counter)
    (l : List Sequence) (key : Key) (target : ℤ) : Takes (l.map f) key target ↔ Takes l key target := by
  simp only [Takes,mem_map,exists_exists_and_eq_and,(hf _).1,(hf _).2]

theorem map_moved_of_notMem {key : Key} (h : key ∉ l.map Sequence.key) (target : ℤ) :
    l.map (moved key target) = l := by
  conv_rhs => rw [← map_id l]
  refine map_congr_left fun q hq => ?_
  rw [moved,if_neg]
  · rfl
  · rintro rfl
    exact h (mem_map_of_mem hq)

theorem setvalAt_ok_iff {key : Key} {target : ℤ} (hl : (l.map Sequence.key).Nodup) :
    setvalAt key target l = .ok l' ↔ Takes l key target ∧ l' = l.map (moved key target) := by
  induction l generalizing l' with
  | nil => simp [setvalAt,Takes]
  | cons q l ih =>
    rw [map_cons,nodup_cons] at hl
    rw [setvalAt,map_cons]
    by_cases hk : q.key = key
    · subst hk
      have ht : Takes (q::l) q.key target ↔ (q.setval target).isSome := by
        rw [setval_isSome,Takes]
        constructor
        · rintro ⟨p,hp,hpk,hb⟩
          rcases mem_cons.1 hp with rfl | hp
          · exact hb
          · exact absurd (hpk ▸ mem_map_of_mem hp) hl.1
        · exact fun hb => ⟨q,mem_cons_self,rfl,hb⟩
      rw [if_pos rfl,ht,map_moved_of_notMem hl.1,moved,if_pos rfl]
      cases q.setval target with
      | none => simp
      | some q' => simp [eq_comm]
    · have ht : Takes (q::l) key target ↔ Takes l key target := by
        simp only [Takes,mem_cons,exists_eq_or_imp,hk,false_and,false_or]
      rw [if_neg hk,ht,moved,if_neg (Ne.symm hk)]
      cases hr : setvalAt key target l with
      | error e =>
        have hn : ¬Takes l key target := fun h => by
          have hok := (ih hl.2).2 ⟨h,rfl⟩
          rw [hr] at hok
          cases hok
        simp [Except.map,hn]
      | ok l'' =>
        obtain ⟨hta,rfl⟩ := (ih hl.2).1 hr
        simp [Except.map,hta,eq_comm]

theorem recipient_ext (h : r.sequences = r'.sequences) : r = r' := by
  cases r
  cases r'
  cases h
  rfl

theorem setval_ok_iff {key : Key} {target : ℤ} : r.setval key target = .ok r' ↔
    Takes r.sequences key target ∧ r'.sequences = r.sequences.map (moved key target) := by
  rw [← setvalAt_ok_iff r.distinct,Recipient.setval]
  split
  · next e he => simp [he]
  · next l hl =>
    constructor
    · intro h
      cases h
      exact hl
    · intro h
      have hs : l = r'.sequences := Except.ok.inj (hl.symm.trans h)
      exact congrArg Except.ok (recipient_ext hs)

theorem not_takes_of_error {key : Key} {target : ℤ} {e : SetvalError}
    (h : r.setval key target = .error e) : ¬Takes r.sequences key target := by
  intro ht
  have hok := (setvalAt_ok_iff r.distinct).2 ⟨ht,rfl⟩
  rw [Recipient.setval] at h
  split at h
  · next e' he =>
    rw [he] at hok
    cases hok
  · cases h

def landed (margin : I64) (rows : List SequenceValue) (q : Sequence) : Sequence :=
  rows.foldl (fun q row => moved row.key (sequenceAdvanceTarget row.lastValue margin).val q) q

theorem landed_eq (rows : List SequenceValue) (q : Sequence) :
    (landed margin rows q).key = q.key ∧ (landed margin rows q).counter = q.counter := by
  induction rows generalizing q with
  | nil => exact ⟨rfl,rfl⟩
  | cons row rows ih =>
    have hm := moved_eq row.key (sequenceAdvanceTarget row.lastValue margin).val q
    have hr := ih (moved row.key (sequenceAdvanceTarget row.lastValue margin).val q)
    exact ⟨hr.1.trans hm.1,hr.2.trans hm.2⟩

/-- Every listed sequence is there and its target within its bounds. -/
def Accepted (margin : I64) (rows : List SequenceValue) (r : Recipient) : Prop :=
  ∀ row ∈ rows, Takes r.sequences row.key (sequenceAdvanceTarget row.lastValue margin).val

/-- The loop over the rows succeeds exactly when each of them is accepted, and then leaves every
sequence where the rows of its key put it. -/
theorem advanceFrom_success (advanced : ℕ) (rows : List SequenceValue) (r : Recipient) :
    ((advanceFrom describe margin advanced rows r).1.success ↔ Accepted margin rows r) ∧
    (Accepted margin rows r → (advanceFrom describe margin advanced rows r).2.sequences =
      r.sequences.map (landed margin rows)) := by
  induction rows generalizing advanced r with
  | nil =>
    have hid : landed margin [] = id := rfl
    simp [advanceFrom,Accepted,hid]
  | cons row rows ih =>
    have hc : Accepted margin (row::rows) r ↔
        Takes r.sequences row.key (sequenceAdvanceTarget row.lastValue margin).val ∧
          Accepted margin rows r := forall_mem_cons
    rw [hc,advanceFrom]
    cases hse : r.setval row.key (sequenceAdvanceTarget row.lastValue margin).val with
    | error e =>
      have hn := not_takes_of_error hse
      simp [hn]
    | ok r' =>
      obtain ⟨ht,hr'⟩ := setval_ok_iff.1 hse
      have hsa : Accepted margin rows r' ↔ Accepted margin rows r := by
        refine forall₂_congr fun row' _ => ?_
        rw [hr']
        exact takes_map (moved_eq _ _) _ _ _
      obtain ⟨hs,hl⟩ := ih (advanced+1) r'
      refine ⟨by simp only [hs,hsa,ht,true_and],fun h => ?_⟩
      rw [hl (hsa.2 h.2),hr',map_map]
      rfl

theorem landed_of_accepted {rows : List SequenceValue} (h : Accepted margin rows r) {q : Sequence}
    (hq : q ∈ r.sequences) :
    match rows.reverse.find? fun row => row.key = q.key with
    | none => landed margin rows q = q
    | some row => (landed margin rows q).isCalled ∧
        (landed margin rows q).lastValue = (sequenceAdvanceTarget row.lastValue margin).val := by
  induction rows using List.reverseRecOn with
  | nil => rfl
  | append_singleton rows row ih =>
    have hb : Accepted margin rows r := fun row' hr' => h row' (mem_append_left _ hr')
    have hl : landed margin (rows++[row]) q =
        moved row.key (sequenceAdvanceTarget row.lastValue margin).val (landed margin rows q) := by
      rw [landed,foldl_append]
      rfl
    obtain ⟨hke,hc⟩ := @landed_eq margin rows q
    rw [reverse_append,reverse_singleton,singleton_append,List.find?_cons,hl,moved,
      hke]
    by_cases hk : row.key = q.key
    · obtain ⟨p,hp,hpk,hbo⟩ := h row (mem_append_right _ (mem_singleton_self row))
      have hpq : p = q := inj_on_of_nodup_map r.distinct hp hq (hpk.trans hk)
      subst hpq
      have hs : ((landed margin rows p).setval (sequenceAdvanceTarget row.lastValue margin).val).isSome := by
        rw [setval_isSome,hc]
        exact hbo
      obtain ⟨p',hp'⟩ := Option.isSome_iff_exists.1 hs
      obtain ⟨-,-,hla,hca⟩ := setval_eq hp'
      simp [hk,hp',hla,hca]
    · simpa [hk] using ih hb

end Advance

section Separation

structure Donor where
  key : Key
  issued : List I64

def Donor.row (d : Donor) : SequenceValue := ⟨d.key,d.issued.getLastD I64.zero⟩

/-- What the donor issued is below what the recipient is going to issue. -/
def Separated (donors : List Donor) (r : Recipient) : Prop :=
  ∀ d ∈ donors, ∀ q ∈ r.sequences, q.key = d.key → ∀ v ∈ d.issued, ∀ w, q.Issues w → v.val < w

def Used (r r' : Recipient) : Prop := List.Forall₂ Drawn r.sequences r'.sequences

/-- A successful advance leaves no gap, and with no gap what was issued stays below what comes. -/
def HandsOver (describe : SetvalError → String) (donors : List Donor) (margin : I64) (r : Recipient) :
    Prop :=
  ∀ response r', advanceSequences describe (some r) ⟨donors.map Donor.row,margin⟩ = (response,some r') →
    response.success = true →
    sequenceGaps r'.rows (donors.map Donor.row) = [] ∧
    ∀ r'', Used r' r'' → sequenceGaps r''.rows (donors.map Donor.row) = [] → Separated donors r''

/-- The last row of a key is set past its first one, and past every value listed for the key. -/
structure Clears (rows : List SequenceValue) (donors : List Donor) (margin : I64) (q : Sequence) :
    Prop where
  past : userSchema q.key.1 = true → ∃ first ∈ rows.find? fun row => row.key = q.key,
    ∃ last ∈ rows.reverse.find? fun row => row.key = q.key,
      first.lastValue.val < (sequenceAdvanceTarget last.lastValue margin).val
  below : ∀ last ∈ rows.reverse.find? fun row => row.key = q.key,
    ∀ lowest ∈ q.counter.lowest (sequenceAdvanceTarget last.lastValue margin).val,
      ∀ d ∈ donors, d.key = q.key → ∀ v ∈ d.issued, v.val < lowest

variable {describe : SetvalError → String} {margin : I64} {r r' : Recipient} {donors : List Donor}
  {rows : List SequenceValue}

theorem exists_last {q : Sequence} {row : SequenceValue} (hr : row ∈ rows) (hk : row.key = q.key) :
    ∃ last, rows.reverse.find? (fun row => row.key = q.key) = some last := by
  rw [← Option.isSome_iff_exists,List.find?_isSome]
  exact ⟨row,List.mem_reverse.2 hr,by simpa using hk⟩

theorem landed_last (h : Accepted margin rows r) {q : Sequence} (hq : q ∈ r.sequences)
    {last : SequenceValue} (hla : rows.reverse.find? (fun row => row.key = q.key) = some last) :
    (landed margin rows q).isCalled ∧
      (landed margin rows q).lastValue = (sequenceAdvanceTarget last.lastValue margin).val := by
  have hl := landed_of_accepted h hq
  rw [hla] at hl
  exact hl

/-- The check of one sequence after the advance compares the first row of its key with the last. -/
theorem past_landed (h : Accepted margin rows r) {q : Sequence} (hq : q ∈ r.sequences) :
    (∃ d, rows.find? (fun d => d.key = q.key) = some d ∧
      d.lastValue.val < (landed margin rows q).row.lastValue.val) ↔
    ∃ first ∈ rows.find? fun row => row.key = q.key,
      ∃ last ∈ rows.reverse.find? fun row => row.key = q.key,
        first.lastValue.val < (sequenceAdvanceTarget last.lastValue margin).val := by
  have hv : ∀ last, rows.reverse.find? (fun row => row.key = q.key) = some last →
      (landed margin rows q).row.lastValue.val = (sequenceAdvanceTarget last.lastValue margin).val := by
    intro last hl
    obtain ⟨hc,hat⟩ := landed_last h hq hl
    simp only [Sequence.row,hc,if_true,hat]
  refine exists_congr fun first => and_congr_right fun hf => ?_
  obtain ⟨last,hl⟩ := exists_last (List.mem_of_find?_eq_some hf)
    (by simpa using List.find?_some hf)
  simp only [hl,Option.mem_def,Option.some.injEq,exists_eq_left',hv last hl]

theorem gaps_landed (h : Accepted margin rows r)
    (hr' : r'.sequences = r.sequences.map (landed margin rows)) :
    sequenceGaps r'.rows rows = [] ↔ ∀ q ∈ r.sequences, userSchema q.key.1 →
      ∃ first ∈ rows.find? fun row => row.key = q.key,
        ∃ last ∈ rows.reverse.find? fun row => row.key = q.key,
          first.lastValue.val < (sequenceAdvanceTarget last.lastValue margin).val := by
  have hme : ∀ m, m ∈ r'.rows ↔
      ∃ q ∈ r.sequences, userSchema q.key.1 ∧ (landed margin rows q).row = m := by
    intro m
    simp only [Recipient.rows,hr',mem_map,mem_filter]
    constructor
    · rintro ⟨_,⟨⟨q,hq,rfl⟩,hu⟩,rfl⟩
      rw [(landed_eq rows q).1] at hu
      exact ⟨q,hq,hu,rfl⟩
    · rintro ⟨q,hq,hu,rfl⟩
      refine ⟨_,⟨⟨q,hq,rfl⟩,?_⟩,rfl⟩
      rwa [(landed_eq rows q).1]
  have hk : ∀ q : Sequence, (landed margin rows q).row.key = q.key := fun q => (landed_eq rows q).1
  rw [sequenceGaps_eq_nil]
  constructor
  · intro hg q hq hu
    have hp := hg _ ((hme _).2 ⟨q,hq,hu,rfl⟩)
    rw [hk] at hp
    exact (past_landed h hq).1 hp
  · intro hp m hm
    obtain ⟨q,hq,hu,rfl⟩ := (hme m).1 hm
    rw [hk]
    exact (past_landed h hq).2 (hp q hq hu)

theorem below_landed (h : Accepted margin rows r) {q : Sequence} (hq : q ∈ r.sequences)
    {last : SequenceValue} (hl : rows.reverse.find? (fun row => row.key = q.key) = some last) (v : ℤ) :
    (∀ w, (landed margin rows q).Issues w → v < w) ↔
      ∀ lowest ∈ q.counter.lowest (sequenceAdvanceTarget last.lastValue margin).val, v < lowest := by
  obtain ⟨hca,hat⟩ := landed_last h hq hl
  have hlo := (landed margin rows q).low_le
  have hc := (@landed_eq margin rows q).2
  simp only [Sequence.Issues,hca,hat,hc,Bool.true_eq_false,false_and,false_or]
  rw [hc,hat] at hlo
  exact Counter.forall_later_iff hlo

theorem separated_landed (h : Accepted margin (donors.map Donor.row) r)
    (hr' : r'.sequences = r.sequences.map (landed margin (donors.map Donor.row))) :
    Separated donors r' ↔ ∀ q ∈ r.sequences,
      ∀ last ∈ (donors.map Donor.row).reverse.find? fun row => row.key = q.key,
        ∀ lowest ∈ q.counter.lowest (sequenceAdvanceTarget last.lastValue margin).val,
          ∀ d ∈ donors, d.key = q.key → ∀ v ∈ d.issued, v.val < lowest := by
  have hk : ∀ q : Sequence, (landed margin (donors.map Donor.row) q).key = q.key :=
    fun q => (landed_eq _ q).1
  rw [Separated,hr']
  constructor
  · intro hs q hq last hla lowest hl d hd hdq v hv
    refine (below_landed h hq hla v.val).1 (fun w hw => ?_) lowest hl
    exact hs d hd _ (mem_map_of_mem hq) ((hk q).trans hdq.symm) v hv w hw
  · intro hb d hd q' hq' hdq v hv w hw
    obtain ⟨q,hq,rfl⟩ := mem_map.1 hq'
    rw [hk] at hdq
    obtain ⟨last,hla⟩ := exists_last (mem_map_of_mem (f := Donor.row) hd) hdq.symm
    refine (below_landed h hq hla v.val).2 (fun lowest hl => ?_) w hw
    exact hb q hq last hla lowest hl d hd hdq.symm v hv

theorem exists_drawn (h : List.Forall₂ Drawn l l') {q' : Sequence} (hq' : q' ∈ l') :
    ∃ q ∈ l, Drawn q q' := by
  induction h with
  | nil => simp at hq'
  | cons hd _ ih =>
    rcases mem_cons.1 hq' with rfl | hq'
    · exact ⟨_,mem_cons_self,hd⟩
    · obtain ⟨q,hq,hd⟩ := ih hq'
      exact ⟨q,mem_cons_of_mem _ hq,hd⟩

theorem separated_of_used (h : Used r r') (hr : Separated donors r) : Separated donors r' := by
  intro d hd q' hq' hk v hv w hw
  obtain ⟨q,hq,hdr⟩ := exists_drawn h hq'
  exact hr d hd q hq (hdr.key_eq.symm.trans hk) v hv w (hdr.issues hw)

theorem used_refl (r : Recipient) : Used r r := List.forall₂_same.2 fun _ _ => Relation.ReflTransGen.refl

/-- The hand-over works exactly when the advance is refused, or every sequence of the recipient is listed,
its last row is set past its first, and no value listed for it reaches the lowest it has left. -/
theorem handsOver_iff : HandsOver describe donors margin r ↔
    margin.val < 0 ∨ ¬Accepted margin (donors.map Donor.row) r ∨
      ∀ q ∈ r.sequences, Clears (donors.map Donor.row) donors margin q := by
  by_cases hm : margin.val < 0
  · refine iff_of_true (fun response r' hr hs => ?_) (.inl hm)
    rw [advanceSequences,if_pos hm] at hr
    cases hr
    cases hs
  rw [HandsOver,advanceSequences]
  simp only [hm,if_false,false_or,Prod.mk.injEq,Option.some.injEq]
  obtain ⟨hs,hl⟩ := @advanceFrom_success describe margin 0 (donors.map Donor.row) r
  by_cases ha : Accepted margin (donors.map Donor.row) r
  · have hr' := hl ha
    have hg := gaps_landed ha hr'
    have hse := separated_landed ha hr'
    simp only [ha,not_true_eq_false,false_or]
    constructor
    · intro h q hq
      obtain ⟨hn,hal⟩ := h _ _ ⟨rfl,rfl⟩ (hs.2 ha)
      exact ⟨hg.1 hn q hq,hse.1 (hal _ (used_refl _) hn) q hq⟩
    · rintro h _ _ ⟨rfl,rfl⟩ -
      refine ⟨hg.2 fun q hq => (h q hq).past,fun r'' hu _ => ?_⟩
      exact separated_of_used hu (hse.2 fun q hq => (h q hq).below)
  · simp only [ha,not_false_eq_true,true_or,iff_true]
    rintro _ _ ⟨rfl,rfl⟩ hok
    exact absurd (hs.1 hok) ha

end Separation
section Samples

def orders : Key := ("public".toList,"orders".toList)

def freshOrders : Recipient where
  sequences := [⟨orders,⟨1,1,9223372036854775807,false,by decide,by decide⟩,1,false,by decide,by decide,
    by decide,by decide⟩]
  distinct := by decide

def descendingOrders : Recipient where
  sequences := [⟨orders,⟨-1,1,1000000,false,by decide,by decide⟩,1000000,false,by decide,by decide,
    by decide,by decide⟩]
  distinct := by decide

def afterAdvance (donors : List Donor) (margin : I64) (r : Recipient) :
    Option (List String × List (Option ℤ)) :=
  (advanceSequences (fun _ => "") (some r) ⟨donors.map Donor.row,margin⟩).2.map fun r' =>
    (sequenceGaps r'.rows (donors.map Donor.row),r'.sequences.map fun q => q.nextval.map Prod.fst)

def issuedUpTo41 : List Donor := [⟨orders,[I64.clamp 40,I64.clamp 41]⟩]
def repeatedRows : List Donor := [⟨orders,[I64.clamp 5]⟩,⟨orders,[I64.clamp 100]⟩,⟨orders,[I64.clamp 7]⟩]
def countedDown : List Donor := [⟨orders,[I64.clamp 1000000,I64.clamp 999999,I64.clamp 999998]⟩]

/-- Without headroom the sequence is put where the donor stopped, which the check takes for a gap. Rows
that repeat a name are checked against the first and set from the last. A sequence that counts down is
put back among the values the donor issued. -/
theorem handoff_fails :
    (afterAdvance issuedUpTo41 (I64.clamp 0) freshOrders =
        some (["public.orders is at 41, the donor issued 41"],[some 42]) ∧
      ¬HandsOver (fun _ => "") issuedUpTo41 (I64.clamp 0) freshOrders) ∧
    (afterAdvance repeatedRows (I64.clamp 1) freshOrders = some ([],[some 9]) ∧
      ¬HandsOver (fun _ => "") repeatedRows (I64.clamp 1) freshOrders) ∧
    afterAdvance countedDown (I64.clamp 2) descendingOrders = some ([],[some 999999]) ∧
      ¬HandsOver (fun _ => "") countedDown (I64.clamp 2) descendingOrders := by
  refine ⟨⟨by decide +kernel,fun h => ?_⟩,⟨by decide +kernel,fun h => ?_⟩,by decide +kernel,fun h => ?_⟩
  · have hg := (h _ _ rfl rfl).1
    revert hg
    decide +kernel
  · have hs := (h _ _ rfl rfl).2 _ (used_refl _) (by decide +kernel)
    have hlt := hs ⟨orders,[I64.clamp 100]⟩ (by simp [repeatedRows]) _ mem_cons_self rfl (I64.clamp 100)
      mem_cons_self 9 (.inr (.next (by decide +kernel)))
    revert hlt
    decide
  · have hs := (h _ _ rfl rfl).2 _ (used_refl _) (by decide +kernel)
    have hlt := hs ⟨orders,[I64.clamp 1000000,I64.clamp 999999,I64.clamp 999998]⟩ mem_cons_self _ mem_cons_self
      rfl (I64.clamp 999999) (by simp) 999999 (.inr (.next (by decide +kernel)))
    revert hlt
    decide

end Samples
end SequenceHandoff
end PgBattery
