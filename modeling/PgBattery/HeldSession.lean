import PgBattery.Lexical
import PgBattery.PgBackend

/-! What a PostgreSQL session holds for its client, and the texts whose effect on it the gateway
reads off as the server does. -/
namespace PgBattery
namespace HeldSession
open Postcard Analysis Gateway PgBackend Lexical List

/-- Equality of statement tables by their entries, which evaluates. -/
instance instDecidableEqStatements : DecidableEq (AList fun _ : Bytes => Bytes) := fun a b =>
  decidable_of_iff (a.entries = b.entries) ⟨AList.ext,congrArg _⟩

/-- The named statements made by Parse messages, the channels listened on, and whether a change of
the channels waits for its transaction to end. -/
structure Held where
  prepared : AList fun _ : Bytes => Bytes := ∅
  channels : Finset Bytes := ∅
  unsettled : Bool := false
  deriving DecidableEq

/-- PostgreSQL keys its prepared statements by at most this many bytes. -/
def nameLength : ℕ := 63

def Held.parse (h : Held) (msg : Bytes) : Held :=
  match cstring (msg.drop 5) with
  | some (name,_) =>
    if name = [] then h else {h with prepared := h.prepared.insert (name.take nameLength) msg}
  | none => h

def Held.close (h : Held) (msg : Bytes) : Held :=
  match msg.drop 5 with
  | [] => h
  | marker::tail => match cstring tail with
    | some (name,_) =>
      if marker = 83 ∧ name ≠ [] then {h with prepared := h.prepared.erase (name.take nameLength)}
      else h
    | none => h

/-- What a statement does once its transaction has committed. -/
def Held.execute (h : Held) : Node → Held
  | .listenStmt name => {h with channels := insert name h.channels}
  | .unlistenStmt name => {h with channels := if name = [] then ∅ else h.channels.erase name}
  | .deallocateStmt isall name =>
    {h with prepared := if isall then ∅ else h.prepared.erase name}
  | .discardStmt all => if all then {h with prepared := ∅, channels := ∅} else h
  | .variableSetStmt _ | .createStmt _ | .createTableAsStmt _ | .viewStmt _ | .createSeqStmt _
  | .selectStmt _ | .prepareStmt | .doStmt | .callStmt | .loadStmt | .declareCursorStmt _
  | .transactionStmt | .leavesNoSessionState | .other => h

def movesChannels : Node → Bool
  | .listenStmt _ | .unlistenStmt _ => true
  | .discardStmt all => all
  | .deallocateStmt .. | .variableSetStmt _ | .createStmt _ | .createTableAsStmt _ | .viewStmt _
  | .createSeqStmt _ | .selectStmt _ | .prepareStmt | .doStmt | .callStmt | .loadStmt
  | .declareCursorStmt _ | .transactionStmt | .leavesNoSessionState | .other => false

def kept (h h' : Held) : Bool :=
  h'.prepared = h.prepared && (h.unsettled || (h'.channels = h.channels && !h'.unsettled))

/-- The text ran as one transaction that committed. -/
def commits (nodes : List Node) : Reply → Bool
  | .ok _ status => status = .idle && !nodes.contains .transactionStmt
  | .silent | .failed .. | .copyIn _ => false

/-- What the session may hold after a text: all of its statements took effect, or some of them ran
and how its transaction ends is not known from the answer. -/
def ran (nodes : List Node) (r : Reply) (h h' : Held) : Bool :=
  if commits nodes r && !h.unsettled then h' = nodes.foldl Held.execute h
  else
    ((List.range (nodes.length+1)).any fun n =>
      h'.prepared = ((nodes.take n).foldl Held.execute h).prepared) &&
      (h.unsettled || nodes.any movesChannels || (h'.channels = h.channels && !h'.unsettled))

/-- The statements of a Query message; `none` for a text the server rejects as a whole. -/
def queryNodes (sql : Parser) (body : Bytes) : Option (List Node) :=
  (cstring body).bind fun (text,rest) => if rest = [] then sql.parse text else none

def ended (sql : Parser) (body : Bytes) (r : Reply) (h h' : Held) : Bool :=
  match queryNodes sql body with
  | some nodes => ran nodes r h h'
  | none => match r with
    | .failed .. => kept h h'
    | .silent | .ok .. | .copyIn _ => false

def succeeds : Reply → Bool
  | .ok .. => true
  | .silent | .failed .. | .copyIn _ => false

def copies : Reply → Bool
  | .copyIn _ => true
  | .silent | .ok .. | .failed .. => false

def ends : Reply → Bool
  | .ok .. | .failed .. => true
  | .silent | .copyIn _ => false

/-- A message read outside copy-in mode, when nothing is skipped. A text that copies in takes effect
when its copy ends. -/
def executed (sql : Parser) (m : Frontend) (r : Reply) (h h' : Held) : Bool :=
  match m with
  | .query body => if copies r then kept h h' else ended sql body r h h'
  | .parse msg => kept (if succeeds r then h.parse msg else h) h'
  | .close msg => kept (if succeeds r then h.close msg else h) h'
  | .bind | .describe | .execute | .sync | .functionCall | .flush | .copyData | .copyDone | .copyFail
  | .password => kept h h'

def affects (sql : Parser) (b : Server) (copying : Bytes) (m : Frontend) (r : Reply)
    (h h' : Held) : Bool :=
  match b.copy with
  | some .simple => if ends r then ended sql copying r h h' else kept h h'
  | some .extended => kept h h'
  | none => if b.skipping then kept h h' else executed sql m r h h'

/-- What PostgreSQL's parser is documented to report. -/
structure Faithful (sql : Parser) : Prop where
  lossy : ∀ text, isUtf8 text → sql.fromUtf8Lossy text = text
  listen : ∀ text nodes name, sql.parse text = some nodes → .listenStmt name ∈ nodes →
    name ≠ [] ∧ Occurs (ascii "listen") text
  unlisten : ∀ text nodes name, sql.parse text = some nodes → .unlistenStmt name ∈ nodes →
    Occurs (ascii "unlisten") text
  deallocate : ∀ text nodes (isall : Bool) name, sql.parse text = some nodes →
    .deallocateStmt isall name ∈ nodes → (isall ∨ name ≠ []) ∧ Leads (ascii "deallocate") text
  discard : ∀ text nodes (all : Bool), sql.parse text = some nodes → .discardStmt all ∈ nodes →
    Leads (ascii "discard") text

def plainName (name : Bytes) : Bool := isUtf8 name && name.length ≤ nameLength

def plainNode : Node → Bool
  | .listenStmt name => trim name = name
  | .unlistenStmt name => trim name = name && name ≠ ascii "*"
  | .deallocateStmt .. | .discardStmt _ | .variableSetStmt _ | .createStmt _ | .createTableAsStmt _
  | .viewStmt _ | .createSeqStmt _ | .selectStmt _ | .prepareStmt | .doStmt | .callStmt | .loadStmt
  | .declareCursorStmt _ | .transactionStmt | .leavesNoSessionState | .other => true

/-- A statement that is found only by the word it begins with. -/
def leads : Node → Bool
  | .deallocateStmt .. | .discardStmt _ => true
  | .listenStmt _ | .unlistenStmt _ | .variableSetStmt _ | .createStmt _ | .createTableAsStmt _
  | .viewStmt _ | .createSeqStmt _ | .selectStmt _ | .prepareStmt | .doStmt | .callStmt | .loadStmt
  | .declareCursorStmt _ | .transactionStmt | .leavesNoSessionState | .other => false

def plainText (sql : Parser) (text : Bytes) : Prop :=
  isUtf8 text ∧ ∀ nodes, sql.parse text = some nodes →
    nodes.all plainNode ∧ (nodes.any leads → tidy text ∧ Apart none text)

/-- A message whose names and texts the gateway reads as PostgreSQL does. -/
def plain (sql : Parser) : Frontend → Prop
  | .query body => ∀ text rest, cstring body = some (text,rest) → plainText sql text
  | .parse msg => (cstring (msg.drop 5)).all fun (name,_) => plainName name
  -- the name of a Close follows a byte that says what it closes
  | .close msg => (cstring (msg.drop 6)).all fun (name,_) => plainName name
  | .bind | .describe | .execute | .sync | .functionCall | .flush | .copyData | .copyDone | .copyFail
  | .password => True

def preparing : Frontend → Bool
  | .parse _ | .close _ => true
  | .query _ | .bind | .describe | .execute | .sync | .functionCall | .flush | .copyData | .copyDone
  | .copyFail | .password => false

def changeOf : Node → Option ReplayChange
  | .listenStmt name => some (.listen name)
  | .unlistenStmt name => some (if name = [] then .unlistenAll else .unlisten name)
  | .deallocateStmt isall name => some (if isall then .deallocateAll else .deallocate name)
  | .discardStmt all => if all then some .discardAll else none
  | .variableSetStmt _ | .createStmt _ | .createTableAsStmt _ | .viewStmt _ | .createSeqStmt _
  | .selectStmt _ | .prepareStmt | .doStmt | .callStmt | .loadStmt | .declareCursorStmt _
  | .transactionStmt | .leavesNoSessionState | .other => none

section Analysis
variable {sql : Parser} {nodes : List Node}

def nodeChange (namesTempObject : Bool) (node : Node) : Option SessionChange :=
  match classifyStatement node with
  | .modeled change => change
  | .unmodeled => if namesTempObject then
      some (.nonMigratable "unmodeled statement naming a temp-scoped object") else none

theorem accumulateStatement_eq (temp : Bool) (a : QueryAnalysis) (node : Node) :
    accumulateStatement temp a node =
      ⟨a.sessionChanges++(nodeChange temp node).toList,
        a.controlsTransaction || node = .transactionStmt⟩ := by
  rw [accumulateStatement,nodeChange]
  cases classifyStatement node with
  | modeled change =>
    cases change with
    | none => simp
    | some change => rfl
  | unmodeled =>
    dsimp only
    split_ifs
    · rfl
    · simp

theorem accumulateQueryAnalysis_eq (temp : Bool) (nodes : List Node) (a : QueryAnalysis) :
    accumulateQueryAnalysis a nodes temp =
      ⟨a.sessionChanges++nodes.filterMap (nodeChange temp),
        a.controlsTransaction || nodes.contains .transactionStmt⟩ := by
  rw [accumulateQueryAnalysis]
  induction nodes generalizing a with
  | nil => simp
  | cons node nodes ih =>
    have hc : (node::nodes).contains .transactionStmt =
        (decide (node = .transactionStmt) || nodes.contains .transactionStmt) := by
      rw [contains_cons]
      congr 1
      exact decide_eq_decide.2 eq_comm
    rw [foldl_cons,accumulateStatement_eq,ih,filterMap_cons,hc,Bool.or_assoc]
    cases nodeChange temp node with
    | none => simp
    | some change => simp

def replayOf : SessionChange → Option ReplayChange
  | .listen channel => some (.listen channel)
  | .unlisten channel => some (.unlisten channel)
  | .unlistenAll => some .unlistenAll
  | .deallocate name => some (.deallocate name)
  | .deallocateAll => some .deallocateAll
  | .discardAll => some .discardAll
  | .setSessionVar | .nonMigratable _ => none

theorem applySessionChanges_snd (s : ConnectionState) (changes : List SessionChange) :
    (applySessionChanges s changes).2 = changes.filterMap replayOf := by
  suffices h : ∀ r, (changes.foldl applySessionChange r).2 = r.2++changes.filterMap replayOf from h (s,[])
  induction changes with
  | nil => simp
  | cons change changes ih =>
    intro r
    rw [foldl_cons,ih,filterMap_cons]
    cases change <;> simp [applySessionChange,replayOf]

theorem nodeChange_replayOf {node : Node} (hp : plainNode node)
    (hl : ∀ name, node = .listenStmt name → name ≠ [])
    (hd : ∀ (isall : Bool) name, node = .deallocateStmt isall name → isall ∨ name ≠ [])
    (temp : Bool) : (nodeChange temp node).bind replayOf = changeOf node := by
  cases node with
  | listenStmt name =>
    have ht : trim name = name := by simpa [plainNode] using hp
    have hne := hl name rfl
    simp [nodeChange,classifyStatement,normalizeConditionName,ht,hne,replayOf,changeOf]
  | unlistenStmt name =>
    simp only [plainNode,Bool.and_eq_true,decide_eq_true_eq] at hp
    by_cases he : name = []
    · subst he
      rfl
    · simp [nodeChange,classifyStatement,hp.1,hp.2,he,replayOf,changeOf]
  | deallocateStmt isall name =>
    cases isall with
    | true => rfl
    | false =>
      have hne : name ≠ [] := (hd false name rfl).resolve_left (by simp)
      simp [nodeChange,classifyStatement,hne,replayOf,changeOf]
  | discardStmt all => cases all <;> rfl
  | variableSetStmt isLocal => cases isLocal <;> rfl
  | createStmt temp => cases temp <;> rfl
  | createTableAsStmt temp => cases temp <;> rfl
  | viewStmt temp => cases temp <;> rfl
  | createSeqStmt temp => cases temp <;> rfl
  | selectStmt temp => cases temp <;> rfl
  | declareCursorStmt hold => cases hold <;> rfl
  | other => cases temp <;> rfl
  | _ => rfl

theorem analyzeQuery_changes (hs : Faithful sql) {text : Bytes} (hp : sql.parse text = some nodes)
    (hpl : nodes.all plainNode) (s : ConnectionState) :
    (applySessionChanges s (analyzeQuery sql text).sessionChanges).2 = nodes.filterMap changeOf ∧
      (analyzeQuery sql text).controlsTransaction = nodes.contains .transactionStmt := by
  rw [applySessionChanges_snd]
  simp only [analyzeQuery,hp,accumulateQueryAnalysis_eq,nil_append,Bool.false_or,
    and_true,filterMap_filterMap]
  refine filterMap_congr fun node hn => ?_
  refine nodeChange_replayOf (all_eq_true.1 hpl node hn) ?_ ?_ _
  · rintro name rfl
    exact (hs.listen text nodes name hp hn).1
  · rintro isall name rfl
    exact (hs.deallocate text nodes isall name hp hn).1

/-- A text the prefilter lets pass changes nothing that is tracked. -/
theorem filterMap_changeOf_eq_nil (hs : Faithful sql) {text : Bytes}
    (hp : sql.parse text = some nodes) (ht : nodes.any leads → tidy text ∧ Apart none text)
    (hsu : (queryKeywordFlags text).subscription = false)
    (hm : mightContainSessionStateCommand text = false) : nodes.filterMap changeOf = [] := by
  rw [filterMap_eq_nil_iff]
  intro node hn
  have hle : leads node → tidy text ∧ Apart none text :=
    fun hl => ht (any_eq_true.2 ⟨node,hn,hl⟩)
  cases node with
  | listenStmt name =>
    have hfl := prefilter_listen (hs.listen text nodes name hp hn).2
    rw [hsu] at hfl
    cases hfl
  | unlistenStmt name =>
    have hfl := prefilter_unlisten (hs.unlisten text nodes name hp hn)
    rw [hsu] at hfl
    cases hfl
  | deallocateStmt isall name =>
    have hf := prefilter_deallocate (hs.deallocate text nodes isall name hp hn).2 (hle rfl).1
      (hle rfl).2
    rw [hm] at hf
    cases hf
  | discardStmt all =>
    have hf := prefilter_discard (hs.discard text nodes all hp hn) (hle rfl).1 (hle rfl).2
    rw [hm] at hf
    cases hf
  | _ => rfl

theorem cstring_eq {data text rest : Bytes} (h : cstring data = some (text,rest)) :
    data = text++0::rest := by
  have hs := takeWhile_append_dropWhile (p := fun b : U8 => b ≠ 0) (l := data)
  rw [cstring] at h
  cases hd : data.dropWhile (· ≠ 0) with
  | nil =>
    rw [hd] at h
    cases h
  | cons b tail =>
    rw [hd] at h
    simp only [Option.some.injEq,Prod.mk.injEq] at h
    have hb : b = 0 := by
      have hh := List.head?_dropWhile_not (fun b : U8 => decide (b ≠ 0)) data
      rw [hd] at hh
      simpa using hh
    rw [hd,h.1,h.2,hb] at hs
    exact hs.symm

theorem handleQuery_plain (hs : Faithful sql) {body : Bytes} (hpl : plain sql (.query body))
    (hn : queryNodes sql body = some nodes) (s : ConnectionState) :
    ∃ controls, (handleQuery sql s body).2 = .ready (nodes.filterMap changeOf) controls ∧
      (nodes.filterMap changeOf ≠ [] → controls = nodes.contains .transactionStmt) := by
  obtain ⟨⟨text,rest⟩,hc,hp⟩ := Option.bind_eq_some_iff.1 hn
  simp only [Option.ite_none_right_eq_some] at hp
  obtain ⟨rfl,hpr⟩ := hp
  obtain ⟨hu,hno⟩ := hpl text [] hc
  obtain ⟨ha,hti⟩ := hno nodes hpr
  have hb := cstring_eq hc
  have hne : body ≠ [] := by simp [hb]
  have hd : body.dropLast = text := by rw [hb,dropLast_concat]
  obtain ⟨hch,hco⟩ := analyzeQuery_changes hs hpr ha
    (if (queryKeywordFlags text).functionState then s.markUnknowable else s)
  rw [handleQuery,if_neg hne,hd,hs.lossy text hu]
  dsimp only
  by_cases hpa : (!(queryKeywordFlags text).subscription && !(mightContainSessionStateCommand text ||
      (queryKeywordFlags text).tempObject))
  · have hni : nodes.filterMap changeOf = [] := by
      simp only [Bool.and_eq_true,Bool.not_eq_true',Bool.or_eq_false_iff] at hpa
      exact filterMap_changeOf_eq_nil hs hpr hti hpa.1 hpa.2.1
    rw [if_pos hpa,hni]
    exact ⟨false,rfl,fun h => absurd rfl h⟩
  · rw [if_neg hpa,hch,hco]
    exact ⟨_,rfl,fun _ => rfl⟩

end Analysis

end HeldSession
end PgBattery
