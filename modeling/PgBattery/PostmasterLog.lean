import PgBattery.AutoConf
import PgBattery.Search

/-! What the relay of the postmaster's log makes of it: each line's level, and the last line that condemned
the data directory. The server writes messages; the relay sees lines. -/
namespace PgBattery
namespace PostmasterLog
open SqlReply AutoConf Search List

section Source

def contains (word line : Text) : Bool := (split word line).isSome

def find (line word : Text) : Option ℕ := (split word line).map fun around => around.1.length

def exitWasARefusal (code : Option ℤ) (fault : Option Text) : Bool :=
  code.any (· ≠ 0) && fault.isSome

def faults : List Text :=
  ["is not a child of this server's history".toList,
    "does not contain minimum recovery point".toList,
    "could not locate a valid checkpoint record".toList,
    "could not locate required checkpoint record".toList,
    "could not find redo location".toList,
    "invalid checkpoint record".toList,
    "invalid primary checkpoint record".toList,
    "database files are incompatible with server".toList,
    "incorrect checksum in control file".toList,
    "WAL file is from different database system".toList,
    "is not a valid data directory".toList]

def fatalTag : Text := "FATAL:  ".toList

def panicTag : Text := "PANIC:  ".toList

def tagged (line : Text) : Bool := contains fatalTag line || contains panicTag line

def namesFault (line : Text) : Bool := faults.any (contains · line)

def dataDirectoryFault (line : Text) : Bool := tagged line && namesFault line

inductive Level
  | error | warn | info | debug
  deriving DecidableEq

/-- The severity tags with their levels; a detail line keeps the level before it. -/
def tags : List (Text × Option Level) :=
  [(panicTag,some .error),(fatalTag,some .warn),("ERROR:  ".toList,some .warn),
    ("WARNING:  ".toList,some .warn),("LOG:  ".toList,some .info),("INFO:  ".toList,some .info),
    ("NOTICE:  ".toList,some .info),("DEBUG1:  ".toList,some .debug),("DEBUG2:  ".toList,some .debug),
    ("DEBUG3:  ".toList,some .debug),("DEBUG4:  ".toList,some .debug),("DEBUG5:  ".toList,some .debug),
    ("DETAIL:  ".toList,none),("HINT:  ".toList,none),("CONTEXT:  ".toList,none),
    ("STATEMENT:  ".toList,none),("QUERY:  ".toList,none),("LOCATION:  ".toList,none)]

/-- `min_by_key` over the position: the first of the least. -/
def earliest : List (ℕ × Option Level) → Option (ℕ × Option Level)
  | [] => none
  | found::rest =>
    match earliest rest with
    | none => some found
    | some other => if other.1 < found.1 then some other else some found

def pgLineLevel (line : Text) (previous : Level) : Level :=
  let found := tags.filterMap fun tag => (find line tag.1).map fun place => (place,tag.2)
  ((earliest found).bind Prod.snd).getD previous

structure Relay where
  level : Level := .info
  fault : Option Text := none
  /-- What has been relayed, with its level. -/
  relayed : List (Level × Text) := []

def relayLine (s : Relay) (line : Text) : Relay :=
  let level := pgLineLevel line s.level
  ⟨level,if dataDirectoryFault line then some line else s.fault,s.relayed++[(level,line)]⟩

/-- The loop over the lines read, which end where the pipe closes or a line is not UTF-8. -/
def relayPostgresLog (read : List Text) : Relay := read.foldl relayLine {}

end Source

section Server

inductive Severity
  | panic | fatal | error | warning | log | info | notice | debug
  deriving DecidableEq

def Severity.label : Severity → Text
  | .panic => panicTag
  | .fatal => fatalTag
  | .error => "ERROR:  ".toList
  | .warning => "WARNING:  ".toList
  | .log => "LOG:  ".toList
  | .info => "INFO:  ".toList
  | .notice => "NOTICE:  ".toList
  | .debug => "DEBUG:  ".toList

def searched : List Text := fatalTag::panicTag::faults

/-- The line prefix, `%m [%p] ` unless set otherwise: nothing that is searched for starts in it. -/
structure Stamp where
  text : Text
  oneLine : '\n' ∉ text
  apart : ∀ word ∈ searched, Apart text word

structure Message where
  stamp : Stamp
  severity : Severity
  primary : Text
  detail : Option Text := none
  context : Option Text := none
  statement : Option Text := none

/-- The quoted parts, with their labels. -/
def Message.quoted (m : Message) : List (Text × Text) :=
  m.detail.toList.map ("DETAIL:  ".toList,·)++m.context.toList.map ("CONTEXT:  ".toList,·)++
    m.statement.toList.map ("STATEMENT:  ".toList,·)

def Message.parts (m : Message) : List (Text × Text) := (m.severity.label,m.primary)::m.quoted

/-- `append_with_tabs`. -/
def withTabs (text : Text) : Text := text.flatMap fun c => if c = '\n' then ['\n','\t'] else [c]

def Message.written (m : Message) : List Text :=
  m.parts.map fun p => m.stamp.text++p.1++withTabs p.2

def stderr (messages : List Message) : Text :=
  (messages.flatMap Message.written).flatMap fun text => text++['\n']

/-- The server itself gives up on the directory. -/
def Message.condemns (m : Message) : Prop :=
  (m.severity = .fatal ∨ m.severity = .panic) ∧ namesFault m.primary = true

/-- Text that is not the server's own last word: the parts quoted, and what a message of any other
severity is about. -/
def Message.reported (m : Message) : List Text :=
  (if m.severity = .fatal ∨ m.severity = .panic then [] else [m.primary])++m.quoted.map Prod.snd

/-- One line of the text has both a tag and a fault. -/
def mimics (text : Text) : Bool := (lines text).any dataDirectoryFault

end Server

section Contains
variable {word line : Text}

theorem searched_words : ∀ word ∈ searched, word ≠ [] ∧ '\t' ∉ word ∧ '\r' ∉ word := by decide +kernel

theorem contains_append_apart (h : Apart line word) (rest : Text) :
    contains word (line++rest) = contains word rest := by
  rw [contains,contains,split_append_apart h,Option.isSome_map]

theorem contains_cons {c : Char} (hne : word ≠ []) (hc : c ∉ word) (line : Text) :
    contains word (c::line) = contains word line := by
  rw [contains,contains,split_cons_neg (not_prefix_of_head hne hc),Option.isSome_map]

theorem contains_concat {c : Char} (hne : word ≠ []) (hc : c ∉ word) (line : Text) :
    contains word (line++[c]) = contains word line := by
  rw [contains,contains]
  cases hs : split word line with
  | none =>
    rw [split_append_stop hne hs hc]
    rfl
  | some around =>
    rw [split_append hs]
    rfl

theorem contains_stripCr (hne : word ≠ []) (hc : '\r' ∉ word) (line : Text) :
    contains word (stripCr line) = contains word line := by
  rcases stripCr_cases line with ⟨h,-⟩ | h
  · rw [h]
  · conv_rhs => rw [h]
    exact (contains_concat hne hc _).symm

theorem namesFault_congr {line' : Text} (h : ∀ word ∈ searched, contains word line = contains word line') :
    namesFault line = namesFault line' := by
  have hm : ∀ fault ∈ faults, fault ∈ searched := fun fault hf =>
    mem_cons_of_mem _ (mem_cons_of_mem _ hf)
  rw [Bool.eq_iff_iff,namesFault,namesFault,any_eq_true,any_eq_true]
  constructor
  · rintro ⟨fault,hf,hin⟩
    exact ⟨fault,hf,(h fault (hm fault hf)).symm.trans hin⟩
  · rintro ⟨fault,hf,hin⟩
    exact ⟨fault,hf,(h fault (hm fault hf)).trans hin⟩

theorem dataDirectoryFault_congr {line' : Text}
    (h : ∀ word ∈ searched, contains word line = contains word line') :
    dataDirectoryFault line = dataDirectoryFault line' := by
  rw [dataDirectoryFault,dataDirectoryFault,tagged,tagged,namesFault_congr h,h fatalTag (by decide),
    h panicTag (by decide)]

theorem dataDirectoryFault_stripCr (line : Text) :
    dataDirectoryFault (stripCr line) = dataDirectoryFault line :=
  dataDirectoryFault_congr fun word hw =>
    contains_stripCr (searched_words word hw).1 (searched_words word hw).2.2 line

theorem dataDirectoryFault_tab (line : Text) : dataDirectoryFault ('\t'::line) = dataDirectoryFault line :=
  dataDirectoryFault_congr fun word hw =>
    contains_cons (searched_words word hw).1 (searched_words word hw).2.1 line

end Contains

section Relay

theorem fault_foldl (ls : List Text) (s : Relay) :
    (ls.foldl relayLine s).fault = (ls.filter dataDirectoryFault).getLast?.or s.fault := by
  induction ls generalizing s with
  | nil => rfl
  | cons line ls ih =>
    rw [foldl_cons,ih]
    by_cases hl : dataDirectoryFault line
    · have hf : (relayLine s line).fault = some line := if_pos hl
      rw [filter_cons_of_pos hl,hf,List.getLast?_cons]
      cases (ls.filter dataDirectoryFault).getLast? <;> rfl
    · have hf : (relayLine s line).fault = s.fault := if_neg hl
      rw [filter_cons_of_neg hl,hf]

theorem isSome_fault_iff (read : List Text) :
    (relayPostgresLog read).fault.isSome ↔ ∃ line ∈ read, dataDirectoryFault line := by
  have hf := fault_foldl read {}
  rw [Option.or_none] at hf
  rw [relayPostgresLog,hf,List.getLast?_isSome,ne_eq,filter_eq_nil_iff]
  simp only [not_forall,not_not,exists_prop]

end Relay

section Written

theorem strLines_append (s t : Text) : strLines (s++ '\n'::t) = (lines s).map stripCr++strLines t := by
  rw [strLines,strLines,lines_append,dropLast_append_of_ne_nil (lines_ne_nil t),map_append,
    append_assoc,List.getLast?_append_of_ne_nil _ (lines_ne_nil t)]

theorem strLines_flatMap (texts : List Text) :
    strLines (texts.flatMap fun text => text++['\n']) = texts.flatMap fun text => (lines text).map stripCr := by
  induction texts with
  | nil => rfl
  | cons text texts ih =>
    rw [flatMap_cons,flatMap_cons,append_assoc,singleton_append,strLines_append,ih]

def continued : List Text → List Text
  | [] => []
  | l::ls => l::ls.map ('\t'::·)

theorem lines_prepend {a : Text} (ha : '\n' ∉ a) {s l : Text} {ls : List Text} (h : lines s = l::ls) :
    lines (a++s) = (a++l)::ls := by
  induction a with
  | nil => exact h
  | cons c a ih =>
    obtain ⟨hc,ha⟩ := not_or.1 (mt mem_cons.2 ha)
    rw [cons_append,lines,ih ha]
    exact if_neg (Ne.symm hc)

theorem lines_withTabs (text : Text) : lines (withTabs text) = continued (lines text) := by
  induction text with
  | nil => rfl
  | cons c text ih =>
    cases hl : lines text with
    | nil => exact absurd hl (lines_ne_nil text)
    | cons l ls =>
      rw [hl] at ih
      by_cases hc : c = '\n'
      · subst hc
        have hcu : withTabs ('\n'::text) = []++ '\n'::(['\t']++withTabs text) := rfl
        have ht := lines_prepend (a := ['\t']) (by decide) ih
        have hn : lines ('\n'::text) = []::l::ls := by
          rw [lines,hl]
          exact if_pos rfl
        rw [hcu,lines_append,ht,hn]
        rfl
      · have hcu : withTabs (c::text) = [c]++withTabs text := by simp [withTabs,hc]
        have ho : lines (c::text) = (c::l)::ls := by
          rw [lines,hl]
          exact if_neg hc
        have hn : '\n' ∉ [c] := by simpa using Ne.symm hc
        rw [hcu,ho,lines_prepend hn ih]
        rfl

theorem exists_fault_iff (messages : List Message) :
    (∃ line ∈ strLines (stderr messages), dataDirectoryFault line) ↔
      ∃ m ∈ messages, ∃ p ∈ m.parts, mimics (m.stamp.text++p.1++withTabs p.2) := by
  rw [stderr,strLines_flatMap]
  simp only [mem_flatMap,mem_map,Message.written,mimics,any_eq_true]
  constructor
  · rintro ⟨line,⟨text,⟨m,hm,p,hp,rfl⟩,l,hl,rfl⟩,hf⟩
    exact ⟨m,hm,p,hp,l,hl,(dataDirectoryFault_stripCr l).symm.trans hf⟩
  · rintro ⟨m,hm,p,hp,l,hl,hf⟩
    exact ⟨stripCr l,⟨_,⟨m,hm,p,hp,rfl⟩,l,hl,rfl⟩,(dataDirectoryFault_stripCr l).trans hf⟩

end Written

section Part
variable {stamp : Stamp} {label text : Text}

theorem contains_iff {word : Text} (hne : word ≠ []) (s : Text) : contains word s ↔ word <:+: s := by
  constructor
  · intro h
    obtain ⟨around,hs⟩ := Option.isSome_iff_exists.1 h
    exact ⟨around.1,around.2,(eq_append_of_split hs).symm⟩
  · rintro ⟨a,b,rfl⟩
    by_contra hno
    have hf : Free word (a++(word++b)) := by
      rw [← append_assoc]
      exact Option.not_isSome_iff_eq_none.1 hno
    clear hno
    induction a with
    | nil =>
      rw [nil_append,Free,split_self_append hne] at hf
      cases hf
    | cons c a ih =>
      by_cases hp : word <+: c::(a++(word++b))
      · rw [cons_append,Free,split_cons_pos hp] at hf
        cases hf
      · rw [cons_append,Free,split_cons_neg hp,Option.map_eq_none_iff] at hf
        exact ih hf

theorem infix_of_lines {s l : Text} {ls : List Text} (h : lines s = l::ls) :
    l <+: s ∧ ∀ k ∈ ls, k <:+: s := by
  induction s generalizing l ls with
  | nil =>
    cases h
    exact ⟨prefix_rfl,fun k hk => absurd hk not_mem_nil⟩
  | cons c s ih =>
    cases hl : lines s with
    | nil => exact absurd hl (lines_ne_nil s)
    | cons k ks =>
      obtain ⟨hf,hr⟩ := ih hl
      have hla : ∀ k' ∈ ks, k' <:+: c::s := fun k' hk' =>
        (hr k' hk').trans (suffix_cons c s).isInfix
      by_cases hc : c = '\n'
      · have hcu : lines (c::s) = []::k::ks := by
          rw [lines,hl]
          exact if_pos hc
        rw [hcu] at h
        cases h
        refine ⟨List.nil_prefix,forall_mem_cons.2 ⟨?_,hla⟩⟩
        exact hf.isInfix.trans (suffix_cons c s).isInfix
      · have hcu : lines (c::s) = (c::k)::ks := by
          rw [lines,hl]
          exact if_neg hc
        rw [hcu] at h
        cases h
        exact ⟨List.cons_prefix_cons.2 ⟨rfl,hf⟩,hla⟩

theorem namesFault_of_infix {line : Text} (hin : line <:+: text) (h : namesFault line) :
    namesFault text := by
  obtain ⟨fault,hf,hc⟩ := any_eq_true.1 h
  have hne := (searched_words fault (mem_cons_of_mem _ (mem_cons_of_mem _ hf))).1
  exact any_eq_true.2 ⟨fault,hf,(contains_iff hne text).2 (((contains_iff hne line).1 hc).trans hin)⟩

def Plain (label : Text) : Prop := '\n' ∉ label ∧ ∀ word ∈ searched, Apart label word

instance instDecidableApart (a word : Text) : Decidable (Apart a word) :=
  inferInstanceAs (Decidable (∀ t ∈ a.tails, t ≠ [] → ¬t <+: word ∧ ¬word <+: t))

def plainLabels : List Text :=
  ["DETAIL:  ".toList,"CONTEXT:  ".toList,"STATEMENT:  ".toList,Severity.error.label,
    Severity.warning.label,Severity.log.label,Severity.info.label,Severity.notice.label,
    Severity.debug.label]

theorem plain_labels : ∀ label ∈ plainLabels, '\n' ∉ label ∧ ∀ word ∈ searched, Apart label word := by
  decide +kernel

theorem plain_severity {severity : Severity} (hf : severity ≠ .fatal) (hp : severity ≠ .panic) :
    Plain severity.label := by
  refine plain_labels severity.label ?_
  cases severity <;> first | exact absurd rfl hf | exact absurd rfl hp | simp [plainLabels]

theorem mimics_part (hn : '\n' ∉ label) {l : Text} {ls : List Text} (hl : lines text = l::ls) :
    mimics (stamp.text++label++withTabs text) =
      (dataDirectoryFault (stamp.text++label++l) || ls.any dataDirectoryFault) := by
  have ha : lines (withTabs text) = l::ls.map ('\t'::·) := by rw [lines_withTabs,hl]; rfl
  have ho : '\n' ∉ stamp.text++label := by
    rw [mem_append]
    exact not_or.2 ⟨stamp.oneLine,hn⟩
  have ht : (dataDirectoryFault ∘ ('\t'::·)) = dataDirectoryFault := funext dataDirectoryFault_tab
  rw [mimics,lines_prepend ho ha,any_cons,any_map,ht]

theorem mimics_plain (h : Plain label) : mimics (stamp.text++label++withTabs text) = mimics text := by
  cases hl : lines text with
  | nil => exact absurd hl (lines_ne_nil text)
  | cons l ls =>
    have hf : dataDirectoryFault (stamp.text++label++l) = dataDirectoryFault l := by
      refine dataDirectoryFault_congr fun word hw => ?_
      rw [append_assoc,contains_append_apart (stamp.apart word hw),
        contains_append_apart (h.2 word hw)]
    rw [mimics_part h.1 hl,hf,mimics,hl,any_cons]

theorem faults_apart : ∀ label ∈ [fatalTag,panicTag], '\n' ∉ label ∧ ∀ fault ∈ faults, Apart label fault := by
  decide +kernel

theorem namesFault_of_mimics (hla : label ∈ [fatalTag,panicTag])
    (h : mimics (stamp.text++label++withTabs text)) : namesFault text := by
  obtain ⟨hn,ha⟩ := faults_apart label hla
  cases hl : lines text with
  | nil => exact absurd hl (lines_ne_nil text)
  | cons l ls =>
    obtain ⟨hfi,hlt⟩ := infix_of_lines hl
    rw [mimics_part hn hl,Bool.or_eq_true_iff] at h
    rcases h with hh | hr
    · refine namesFault_of_infix hfi.isInfix ?_
      obtain ⟨fault,hf,hc⟩ := any_eq_true.1 (Bool.and_eq_true_iff.1 hh).2
      have hs : fault ∈ searched := mem_cons_of_mem _ (mem_cons_of_mem _ hf)
      rw [append_assoc,contains_append_apart (stamp.apart fault hs),
        contains_append_apart (ha fault hf)] at hc
      exact any_eq_true.2 ⟨fault,hf,hc⟩
    · obtain ⟨k,hk,hfa⟩ := any_eq_true.1 hr
      exact namesFault_of_infix (hlt k hk) (Bool.and_eq_true_iff.1 hfa).2

end Part

section Messages
variable {m : Message}

theorem plain_of_mem_quoted {p : Text × Text} (h : p ∈ m.quoted) : Plain p.1 := by
  have hl : p.1 ∈ plainLabels := by
    simp only [Message.quoted,mem_append,mem_map,Option.mem_toList] at h
    rcases h with (⟨_,-,rfl⟩ | ⟨_,-,rfl⟩) | ⟨_,-,rfl⟩ <;> simp [plainLabels]
  exact plain_labels p.1 hl

/-- A part that is a fault is the server's own word, or reports a text that mimics it. -/
theorem condemns_or_reported {p : Text × Text} (hp : p ∈ m.parts)
    (h : mimics (m.stamp.text++p.1++withTabs p.2)) :
    m.condemns ∨ ∃ text ∈ m.reported, mimics text := by
  rcases mem_cons.1 hp with rfl | hq
  · by_cases ho : m.severity = .fatal ∨ m.severity = .panic
    · have hl : m.severity.label ∈ [fatalTag,panicTag] := by
        rcases ho with hs | hs <;> rw [hs] <;> decide
      exact .inl ⟨ho,namesFault_of_mimics hl h⟩
    · obtain ⟨hf,hpa⟩ := not_or.1 ho
      rw [mimics_plain (plain_severity hf hpa)] at h
      refine .inr ⟨m.primary,?_,h⟩
      rw [Message.reported,if_neg ho]
      exact mem_append_left _ mem_cons_self
  · rw [mimics_plain (plain_of_mem_quoted hq)] at h
    refine .inr ⟨p.2,?_,h⟩
    exact mem_append_right _ (mem_map_of_mem hq)

theorem exists_part_of_reported {text : Text} (hm : text ∈ m.reported) (h : mimics text) :
    ∃ p ∈ m.parts, mimics (m.stamp.text++p.1++withTabs p.2) := by
  rcases mem_append.1 hm with hpr | hq
  · split_ifs at hpr with ho
    · cases hpr
    · cases mem_singleton.1 hpr
      obtain ⟨hf,hpa⟩ := not_or.1 ho
      refine ⟨_,mem_cons_self,?_⟩
      rw [mimics_plain (plain_severity hf hpa)]
      exact h
  · obtain ⟨p,hp,rfl⟩ := mem_map.1 hq
    refine ⟨p,mem_cons_of_mem _ hp,?_⟩
    rw [mimics_plain (plain_of_mem_quoted hp)]
    exact h

end Messages

/-- However far the log is read, a fault, and a refusal for whatever exit code, come only from a message
that condemns the directory. -/
def OnlyOwnWord (messages : List Message) : Prop :=
  ∀ read, read <+: strLines (stderr messages) →
    ((relayPostgresLog read).fault.isSome = true → ∃ m ∈ messages, m.condemns) ∧
      ∀ code, exitWasARefusal code (relayPostgresLog read).fault = true → ∃ m ∈ messages, m.condemns

/-- The log is read for the server's own word exactly if no reported text has a line with a tag and a
fault, or the server says it too. -/
theorem onlyOwnWord_iff (messages : List Message) :
    OnlyOwnWord messages ↔
      (∀ m ∈ messages, ∀ text ∈ m.reported, mimics text = false) ∨ ∃ m ∈ messages, m.condemns := by
  constructor
  · intro h
    by_cases hn : ∀ m ∈ messages, ∀ text ∈ m.reported, mimics text = false
    · exact .inl hn
    · push Not at hn
      obtain ⟨m,hm,text,ht,hmi⟩ := hn
      obtain ⟨p,hp,hpa⟩ := exists_part_of_reported ht (Bool.eq_true_of_not_eq_false hmi)
      exact .inr ((h _ prefix_rfl).1
        ((isSome_fault_iff _).2 ((exists_fault_iff messages).2 ⟨m,hm,p,hp,hpa⟩)))
  · intro hc read hre
    have hf : (relayPostgresLog read).fault.isSome → ∃ m ∈ messages, m.condemns := by
      intro hs
      obtain ⟨line,hl,hfa⟩ := (isSome_fault_iff read).1 hs
      obtain ⟨m,hm,p,hp,hpa⟩ := (exists_fault_iff messages).1 ⟨line,hre.subset hl,hfa⟩
      rcases condemns_or_reported hp hpa with ho | ⟨text,ht,hmi⟩
      · exact ⟨m,hm,ho⟩
      · rcases hc with hn | ho
        · exact absurd hmi (by rw [hn m hm text ht]; exact Bool.false_ne_true)
        · exact ho
    exact ⟨hf,fun code he => hf (Bool.and_eq_true_iff.1 he).2⟩

def sampleStamp : Stamp where
  text := "2026-10-15 15:24:57.093 UTC [1464] ".toList
  oneLine := by decide
  apart := by decide +kernel

/-- A statement that failed, quoted in the log as the client sent it. -/
def quotedStatement : Message :=
  ⟨sampleStamp,.error,"relation \"notes\" does not exist".toList,none,none,
    some "INSERT INTO notes VALUES ('PANIC:  invalid checkpoint record')".toList⟩

/-- The quoted statement is taken for the server's refusal of its directory. -/
theorem statement_condemns :
    exitWasARefusal (some 1) (relayPostgresLog (strLines (stderr [quotedStatement]))).fault = true ∧
      ¬OnlyOwnWord [quotedStatement] := by
  have he : exitWasARefusal (some 1) (relayPostgresLog (strLines (stderr [quotedStatement]))).fault := by
    decide +kernel
  refine ⟨he,fun h => ?_⟩
  obtain ⟨m,hm,ho,-⟩ := (h _ prefix_rfl).2 (some 1) he
  cases mem_singleton.1 hm
  rcases ho with hf | hp
  · cases hf
  · cases hp

end PostmasterLog
end PgBattery
