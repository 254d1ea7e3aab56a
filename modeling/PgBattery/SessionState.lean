import PgBattery.HeldSession

/-! Which texts sever a session: temporary objects by either spelling, and the extended protocol
against the simple one. -/
namespace PgBattery
namespace SessionState
open Postcard Analysis Gateway Lexical HeldSession List

/-- A relation as the raw parser names it: the schema as written, and the persistence that the words
TEMP, TEMPORARY and UNLOGGED mark. -/
structure RangeVar where
  schemaname : Bytes
  relpersistence : Bytes

def RangeVar.marked (r : RangeVar) : Bool := r.relpersistence = ascii "t"

def RangeVar.temporary (r : RangeVar) : Bool := r.marked || r.schemaname = ascii "pg_temp"

/-- A query; the raw tree keeps the INTO clause at the simple query that has it. -/
inductive SelectStmt
  | simple (into : Option RangeVar)
  | setOperation (larg rarg : SelectStmt)

def SelectStmt.intoClause : SelectStmt → Option RangeVar
  | .simple into => into
  | .setOperation _ _ => none

/-- PostgreSQL takes the clause of the leftmost simple query for that of the whole. -/
def SelectStmt.target : SelectStmt → Option RangeVar
  | .simple into => into
  | .setOperation larg _ => larg.target

def creating : Node → Bool
  | .createStmt _ | .createTableAsStmt _ | .viewStmt _ | .createSeqStmt _ | .selectStmt _ => true
  | .listenStmt _ | .unlistenStmt _ | .variableSetStmt _ | .deallocateStmt .. | .discardStmt _
  | .prepareStmt | .doStmt | .callStmt | .loadStmt | .declareCursorStmt _ | .transactionStmt
  | .leavesNoSessionState | .other => false

/-- A statement of the raw tree, with the relation it creates. -/
inductive Stmt
  | createStmt (relation : Option RangeVar)
  | createTableAsStmt (into : Option RangeVar)
  | viewStmt (view : Option RangeVar)
  | createSeqStmt (sequence : Option RangeVar)
  | selectStmt (select : SelectStmt)
  | other (node : Node) (h : creating node = false)

/-- What the classifier reads of a statement: of a relation only its persistence. -/
def Stmt.node : Stmt → Node
  | .createStmt relation => .createStmt (relation.any RangeVar.marked)
  | .createTableAsStmt into => .createTableAsStmt (into.any RangeVar.marked)
  | .viewStmt view => .viewStmt (view.any RangeVar.marked)
  | .createSeqStmt sequence => .createSeqStmt (sequence.any RangeVar.marked)
  | .selectStmt select => .selectStmt (select.intoClause.any RangeVar.marked)
  | .other node _ => node

def Stmt.target : Stmt → Option RangeVar
  | .createStmt relation | .createTableAsStmt relation | .viewStmt relation
  | .createSeqStmt relation => relation
  | .selectStmt select => select.target
  | .other _ _ => none

/-- The relation whose persistence the classifier looks at. -/
def Stmt.examined : Stmt → Option RangeVar
  | .createStmt relation | .createTableAsStmt relation | .viewStmt relation
  | .createSeqStmt relation => relation
  | .selectStmt select => select.intoClause
  | .other _ _ => none

structure RawParser where
  parse : Bytes → Option (List Stmt)
  splitWithScanner : Bytes → Option (List Bytes)
  fromUtf8Lossy : Bytes → Bytes

def RawParser.parser (raw : RawParser) : Parser where
  parse text := (raw.parse text).map (List.map Stmt.node)
  splitWithScanner := raw.splitWithScanner
  fromUtf8Lossy := raw.fromUtf8Lossy

/-- A text reaches the parser as a string without a zero byte, and only the words TEMP and TEMPORARY
mark a relation. -/
structure Reads (raw : RawParser) : Prop where
  lossy : ∀ text, isUtf8 text → raw.fromUtf8Lossy text = text
  text : ∀ text stmts, raw.parse text = some stmts → isUtf8 text ∧ 0 ∉ text
  temp : ∀ text stmts stmt, raw.parse text = some stmts → stmt ∈ stmts →
    stmt.examined.any RangeVar.marked → Occurs (ascii "temp") text ∨ Occurs (ascii "temporary") text

/-- How a text is sent: a Query message, or a Parse message with its length, name and types. -/
inductive Message
  | query
  | parse (header name types : Bytes) (hheader : header.length = 5) (hname : 0 ∉ name)

def Message.frontend : Message → Bytes → Frontend
  | .query, text => .query (text++[0])
  | .parse header name types _ _, text => .parse (header++(name++0::(text++0::types)))

def Message.readable : Message → Bool
  | .query => true
  | .parse _ name _ _ _ => isUtf8 name

def Message.extended : Message → Bool
  | .query => false
  | .parse .. => true

/-- A statement for which a session is severed: sent as a Query the changes of channels and prepared
statements wait for their answer, sent as a Parse they sever. -/
def severs (extended tempObject : Bool) : Node → Bool
  | .listenStmt name => if extended then trim name ≠ [] else trim name = ascii "*"
  | .unlistenStmt _ => extended
  | .deallocateStmt isall name => extended && (isall || name ≠ [])
  | .discardStmt all => extended && all
  | .variableSetStmt isLocal => !isLocal
  | .createStmt temp | .createTableAsStmt temp | .viewStmt temp | .createSeqStmt temp
  | .selectStmt temp => temp
  | .prepareStmt | .doStmt | .callStmt | .loadStmt => true
  | .declareCursorStmt hold => hold
  | .transactionStmt | .leavesNoSessionState => false
  | .other => tempObject

def analyzed (text : Bytes) : Bool :=
  (queryKeywordFlags text).subscription || mightContainSessionStateCommand text ||
    (queryKeywordFlags text).tempObject

section Analyzer
variable {sql : Parser} {s : ConnectionState} {text : Bytes}

/-- A change of a simple query that severs at once. -/
def ratchets : SessionChange → Bool
  | .listen channel => channel = ascii "*"
  | .setSessionVar | .nonMigratable _ => true
  | .unlisten _ | .unlistenAll | .deallocate _ | .deallocateAll | .discardAll => false

theorem ratchets_or_replayOf (change : SessionChange) : ratchets change ∨ (replayOf change).isSome := by
  cases change <;> simp [ratchets,replayOf]

theorem applySessionChanges_notMigratable (s : ConnectionState) (changes : List SessionChange) :
    (applySessionChanges s changes).1.notMigratable = (s.notMigratable || changes.any ratchets) := by
  suffices h : ∀ r, (changes.foldl applySessionChange r).1.notMigratable =
      (r.1.notMigratable || changes.any ratchets) from h (s,[])
  induction changes with
  | nil => simp
  | cons change changes ih =>
    intro r
    have hs : (applySessionChange r change).1.notMigratable =
        (r.1.notMigratable || ratchets change) := by
      cases change with
      | listen channel =>
        by_cases hst : channel = ascii "*" <;>
          simp [applySessionChange,ratchets,hst,ConnectionState.markUnknowable]
      | _ => simp [applySessionChange,ratchets,ConnectionState.markUnknowable]
    rw [foldl_cons,ih,hs,any_cons,Bool.or_assoc]

theorem nodeChange_severs (extended temp : Bool) (node : Node) :
    (nodeChange temp node).any (fun change => extended || ratchets change) =
      severs extended temp node := by
  cases node with
  | listenStmt name =>
    by_cases he : trim name = []
    · cases extended with
      | false =>
        simp only [nodeChange,classifyStatement,normalizeConditionName,severs,he]
        decide
      | true => simp [nodeChange,classifyStatement,normalizeConditionName,severs,he]
    · cases extended <;>
        simp [nodeChange,classifyStatement,normalizeConditionName,severs,ratchets,he]
  | unlistenStmt name =>
    by_cases ha : trim name = [] ∨ trim name = ascii "*" <;> cases extended <;>
      simp [nodeChange,classifyStatement,severs,ratchets,ha]
  | deallocateStmt isall name =>
    by_cases he : name = [] <;> cases isall <;> cases extended <;>
      simp [nodeChange,classifyStatement,severs,ratchets,he]
  | discardStmt all => cases all <;> cases extended <;> rfl
  | variableSetStmt isLocal => cases isLocal <;> cases extended <;> rfl
  | createStmt temp | createTableAsStmt temp | viewStmt temp | createSeqStmt temp | selectStmt temp
  | declareCursorStmt temp => cases temp <;> cases extended <;> rfl
  | prepareStmt | doStmt | callStmt | loadStmt => cases extended <;> rfl
  | transactionStmt | leavesNoSessionState => rfl
  | other => cases temp <;> cases extended <;> rfl

/-- What the analyzer finds: in a text it cannot parse, always something. -/
theorem analyzeQuery_severs (sql : Parser) (extended : Bool) (text : Bytes) :
    ((analyzeQuery sql text).sessionChanges.any fun change => extended || ratchets change) =
      (sql.parse text).all fun nodes =>
        nodes.any (severs extended (queryKeywordFlags text).tempObject) := by
  rw [analyzeQuery]
  cases sql.parse text with
  | none => simp [ratchets]
  | some nodes =>
    dsimp only
    rw [accumulateQueryAnalysis_eq,nil_append,Option.all_some,any_filterMap]
    refine any_congr rfl fun node => ?_
    rw [← nodeChange_severs]
    cases nodeChange _ node <;> rfl

def searched (s : ConnectionState) (text : Bytes) : ConnectionState :=
  if (queryKeywordFlags text).functionState then s.markUnknowable else s

theorem searched_notMigratable (s : ConnectionState) (text : Bytes) :
    (searched s text).notMigratable = (s.notMigratable || (queryKeywordFlags text).functionState) := by
  rw [searched]
  split_ifs with h
  · rw [h,Bool.or_true]
    rfl
  · simp [h]

theorem handleQuery_eq (s : ConnectionState) {bytes : Bytes} (h : sql.fromUtf8Lossy bytes = text) :
    handleQuery sql s (bytes++[0]) =
      if analyzed text then
        ((applySessionChanges (searched s text) (analyzeQuery sql text).sessionChanges).1,
          .ready ((analyzeQuery sql text).sessionChanges.filterMap replayOf)
            (analyzeQuery sql text).controlsTransaction)
      else (searched s text,.ready [] false) := by
  have hne : bytes++[0] ≠ [] := by simp
  rw [handleQuery,if_neg hne,dropLast_concat,h,← applySessionChanges_snd (searched s text)]
  dsimp only
  rw [← searched,analyzed]
  cases (queryKeywordFlags text).subscription <;> cases mightContainSessionStateCommand text <;>
    cases (queryKeywordFlags text).tempObject <;> rfl

theorem observeParseMessage_eq (s : ConnectionState) {msg : Bytes}
    (h : parseMessageQuery msg = some text) :
    observeParseMessage sql s msg =
      if analyzed text && analyzerFindsSessionState sql text then (searched s text).markUnknowable
      else searched s text := by
  rw [observeParseMessage,h]
  dsimp only
  rw [← searched,analyzed]
  cases (queryKeywordFlags text).subscription <;> cases mightContainSessionStateCommand text <;>
    cases (queryKeywordFlags text).tempObject <;> rfl

/-- What severs a session, in the text and in its statements. -/
def severed (sql : Parser) (extended : Bool) (text : Bytes) : Bool :=
  (queryKeywordFlags text).functionState || analyzed text && (sql.parse text).all fun nodes =>
    nodes.any (severs extended (queryKeywordFlags text).tempObject)

theorem severed_query : severed sql false text ↔ (queryKeywordFlags text).functionState ∨
    analyzed text ∧ (analyzeQuery sql text).sessionChanges.any ratchets := by
  have hf := analyzeQuery_severs sql false text
  simp only [Bool.false_or] at hf
  rw [severed,← hf,Bool.or_eq_true,Bool.and_eq_true]

theorem severed_parse : severed sql true text ↔ (queryKeywordFlags text).functionState ∨
    analyzed text ∧ (analyzeQuery sql text).sessionChanges ≠ [] := by
  have hf := analyzeQuery_severs sql true text
  rw [severed,← hf,Bool.or_eq_true,Bool.and_eq_true]
  cases (analyzeQuery sql text).sessionChanges <;> simp

theorem handleQuery_notMigratable (s : ConnectionState) {bytes : Bytes}
    (h : sql.fromUtf8Lossy bytes = text) :
    (handleQuery sql s (bytes++[0])).1.notMigratable ↔ s.notMigratable ∨ severed sql false text := by
  rw [handleQuery_eq s h,severed_query,← or_assoc,← Bool.or_eq_true,← searched_notMigratable]
  split_ifs with hp
  · rw [applySessionChanges_notMigratable,Bool.or_eq_true]
    simp [hp]
  · simp [hp]

theorem handleQuery_finds (s : ConnectionState) {bytes : Bytes} (h : sql.fromUtf8Lossy bytes = text) :
    ((handleQuery sql s (bytes++[0])).1.notMigratable ∨
      ∃ changes controls, (handleQuery sql s (bytes++[0])).2 = .ready changes controls ∧
        changes ≠ []) ↔ s.notMigratable ∨ severed sql true text := by
  rw [handleQuery_eq s h,severed_parse,← or_assoc,← Bool.or_eq_true,← searched_notMigratable]
  split_ifs with hp
  · rw [applySessionChanges_notMigratable,Bool.or_eq_true,or_assoc]
    refine or_congr_right ?_
    simp only [hp,true_and,Awaited.ready.injEq]
    constructor
    · rintro (ha | ⟨_,_,⟨rfl,_⟩,hne⟩) hn
      · rw [hn] at ha
        cases ha
      · rw [hn] at hne
        exact hne rfl
    · intro hne
      obtain ⟨change,changes,hc⟩ := exists_cons_of_ne_nil hne
      rcases ratchets_or_replayOf change with hr | hr
      · exact .inl (by simp [hc,hr])
      · obtain ⟨replay,hre⟩ := Option.isSome_iff_exists.1 hr
        exact .inr ⟨_,_,⟨rfl,rfl⟩,by simp [hc,hre]⟩
  · simp [hp]

theorem observeParseMessage_notMigratable (s : ConnectionState) {msg : Bytes}
    (h : parseMessageQuery msg = some text) :
    (observeParseMessage sql s msg).notMigratable ↔ s.notMigratable ∨ severed sql true text := by
  have hfi : (analyzed text && analyzerFindsSessionState sql text) ↔
      analyzed text ∧ (analyzeQuery sql text).sessionChanges ≠ [] := by
    simp [analyzerFindsSessionState]
  rw [observeParseMessage_eq s h,severed_parse,← or_assoc,← Bool.or_eq_true,← searched_notMigratable,
    ← hfi]
  split_ifs with hf
  · simp [hf,ConnectionState.markUnknowable]
  · simp [hf]

end Analyzer

section Message
variable {header name types bytes : Bytes}

theorem cstring_append (h : 0 ∉ bytes) (rest : Bytes) : cstring (bytes++0::rest) = some (bytes,rest) := by
  have ha : ∀ b ∈ bytes, decide (b ≠ 0) := by
    intro b hb
    exact decide_eq_true fun h0 => h (h0 ▸ hb)
  rw [cstring,dropWhile_append_of_pos ha,takeWhile_append_of_pos ha]
  simp

theorem parseMessageQuery_eq (hh : header.length = 5) (hna : 0 ∉ name) (hby : 0 ∉ bytes) :
    parseMessageQuery (header++(name++0::(bytes++0::types))) =
      if isUtf8 name ∧ isUtf8 bytes then some bytes else none := by
  rw [parseMessageQuery,← hh,drop_left,readCstring,cstring_append hna]
  by_cases hn : isUtf8 name <;> by_cases hb : isUtf8 bytes <;>
    simp [readCstring,cstring_append hby,hn,hb]

theorem parse_notMigratable (sql : Parser) (s : ConnectionState) (hh : header.length = 5)
    (hn : 0 ∉ name) (hb : 0 ∉ bytes) :
    (handleQueryMessage sql s ((Message.parse header name types hh hn).frontend bytes)).1.notMigratable ↔
      s.notMigratable ∨ isUtf8 name ∧ isUtf8 bytes ∧ severed sql true bytes := by
  have hr := @parseMessageQuery_eq _ _ types _ hh hn hb
  change (observeParseMessage sql s _).notMigratable ↔ _
  split_ifs at hr with hu
  · rw [observeParseMessage_notMigratable s hr]
    simp [hu]
  · rw [observeParseMessage,hr]
    simp only [← and_assoc]
    simp [hu]

end Message

/-- Sent as a Parse, the bytes sever wherever a Query would find something, exactly when what it finds
is in bytes that are text and sent under a name that is. -/
theorem parse_as_strict_iff (sql : Parser) (hlossy : ∀ text, isUtf8 text → sql.fromUtf8Lossy text = text)
    (s : ConnectionState) {bytes header name types : Bytes} (hbytes : 0 ∉ bytes)
    (hheader : header.length = 5) (hname : 0 ∉ name) :
    ((handleQueryMessage sql s (Message.query.frontend bytes)).1.notMigratable ∨
        (∃ changes controls, (handleQueryMessage sql s (Message.query.frontend bytes)).2 =
          some (.ready changes controls) ∧ changes ≠ []) →
      (handleQueryMessage sql s
        ((Message.parse header name types hheader hname).frontend bytes)).1.notMigratable) ↔
      (severed sql true (sql.fromUtf8Lossy bytes) → s.notMigratable ∨ isUtf8 name ∧ isUtf8 bytes) := by
  rw [parse_notMigratable sql s hheader hname hbytes]
  have hq := @handleQuery_finds sql _ s bytes rfl
  simp only [Message.frontend,handleQueryMessage,Option.some.injEq]
  rw [hq]
  constructor
  · intro h hf
    rcases h (.inr hf) with hs | ⟨hn,hb,_⟩
    · exact .inl hs
    · exact .inr ⟨hn,hb⟩
  · rintro h (hs | hf)
    · exact .inl hs
    · rcases h hf with hs | ⟨hn,hb⟩
      · exact .inl hs
      · rw [hlossy bytes hb] at hf
        exact .inr ⟨hn,hb,hf⟩

/-- Bytes that are no text are read with a replacement character for each byte beyond ASCII. -/
def replaced (bytes : Bytes) : Bytes :=
  if isUtf8 bytes then bytes else bytes.flatMap fun b => if b ≤ 127 then [b] else [239,191,189]

/-- A parser that knows one text, a SET, in its lossy reading. -/
def setting : Parser where
  parse text := if text = ascii "SET x = '"++[239,191,189]++ascii "'" then some [.variableSetStmt false]
    else none
  splitWithScanner _ := none
  fromUtf8Lossy := replaced

theorem replaced_text (text : Bytes) (h : isUtf8 text) : replaced text = text := by
  rw [replaced,if_pos h]

def named (name : Bytes) (hname : 0 ∉ name) : Message := .parse [80,0,0,0,32] name [0,0] rfl hname

theorem parse_as_strict_listen :
    (handleQueryMessage setting {} ((named (ascii "q") (by decide)).frontend
      (ascii "LISTEN a"))).1.notMigratable := by
  have hs := @parse_as_strict_iff setting replaced_text {} (ascii "LISTEN a") [80,0,0,0,32]
    (ascii "q") [0,0] (by decide) rfl (by decide)
  exact hs.2 (fun _ => .inr (by decide +kernel)) (.inl (by decide +kernel))

/-- A byte that is no text, in the query or in the statement name, hides a SET from the extended
path. -/
theorem parse_less_strict :
    [(ascii "SET x = '"++[255]++ascii "'",named [] (by decide)),
        (ascii "SET x = '"++[239,191,189]++ascii "'",named [255] (by decide))].Forall fun p =>
      (handleQueryMessage setting {} (Message.query.frontend p.1)).1.notMigratable ∧
        (handleQueryMessage setting {} (p.2.frontend p.1)).1.notMigratable = false := by
  rw [forall_iff_forall_mem]
  decide +kernel

section Temporary
variable {raw : RawParser} {text : Bytes} {stmts : List Stmt}

theorem severs_examined (extended temp : Bool) (stmt : Stmt) (h : stmt.examined.any RangeVar.marked) :
    severs extended temp stmt.node := by
  cases stmt with
  | other node hn => cases h
  | _ => exact h

theorem tempObject_of_occurs (h : Occurs (ascii "temp") text ∨ Occurs (ascii "temporary") text) :
    (queryKeywordFlags text).tempObject := by
  rcases h with h | h
  · exact @queryKeywordFlags_of_occurs _ _ .tempObject h (by decide) (by decide) (by decide)
  · exact @queryKeywordFlags_of_occurs _ _ .tempObject h (by decide) (by decide) (by decide)

/-- A text severs exactly by a session function, by a relation marked temporary where the classifier
looks, or by another of its statements if the text is analyzed. -/
theorem severed_iff (hr : Reads raw) (h : raw.parse text = some stmts) (extended : Bool) :
    severed raw.parser extended text ↔ (queryKeywordFlags text).functionState ∨
      (∃ stmt ∈ stmts, stmt.examined.any RangeVar.marked) ∨
        analyzed text ∧ ∃ stmt ∈ stmts, severs extended (queryKeywordFlags text).tempObject stmt.node := by
  have hp : raw.parser.parse text = some (stmts.map Stmt.node) :=
    congrArg (Option.map (List.map Stmt.node)) h
  rw [severed,hp,Option.all_some,Bool.or_eq_true,Bool.and_eq_true,any_map,any_eq_true]
  refine or_congr_right ⟨.inr,?_⟩
  rintro (⟨stmt,hme,hm⟩ | ha)
  · have ht := tempObject_of_occurs (hr.temp text stmts stmt h hme hm)
    exact ⟨by simp [analyzed,ht],stmt,hme,severs_examined _ _ _ hm⟩
  · exact ha

end Temporary

theorem temp_object_severs_iff {raw : RawParser} (hraw : Reads raw) (s : ConnectionState) (m : Message)
    {text : Bytes} {stmts : List Stmt} (h : raw.parse text = some stmts) :
    ((∃ stmt ∈ stmts, stmt.target.any RangeVar.temporary) →
      (handleQueryMessage raw.parser s (m.frontend text)).1.notMigratable) ↔
      ((∃ stmt ∈ stmts, stmt.target.any RangeVar.temporary) →
        s.notMigratable ∨ m.readable ∧ ((queryKeywordFlags text).functionState ∨
          (∃ stmt ∈ stmts, stmt.examined.any RangeVar.marked) ∨
            analyzed text ∧
              ∃ stmt ∈ stmts, severs m.extended (queryKeywordFlags text).tempObject stmt.node)) := by
  obtain ⟨hu,hz⟩ := hraw.text text stmts h
  refine forall_congr' fun _ => ?_
  rw [← severed_iff hraw h]
  cases m with
  | query =>
    simp only [Message.readable,Message.extended,true_and]
    exact @handleQuery_notMigratable raw.parser _ s _ (hraw.lossy text hu)
  | parse header name types hh hn =>
    rw [parse_notMigratable raw.parser s hh hn hz,Message.readable,Message.extended]
    simp [hu]

def temporaries : RawParser where
  parse text :=
    if text = ascii "CREATE TEMP TABLE t ()" then some [.createStmt (some ⟨[],ascii "t"⟩)]
    else if text = ascii "CREATE TABLE pg_temp.t ()" then
      some [.createStmt (some ⟨ascii "pg_temp",ascii "p"⟩)]
    else if text = ascii "SELECT 1 INTO TEMP t UNION SELECT 2" then
      some [.selectStmt (.setOperation (.simple (some ⟨[],ascii "t"⟩)) (.simple none))]
    else none
  splitWithScanner _ := none
  fromUtf8Lossy := replaced

theorem temporaries_reads : Reads temporaries where
  lossy := replaced_text
  text text stmts h := by
    rw [temporaries] at h
    dsimp only at h
    split_ifs at h with h1 h2 h3
    · rw [h1]
      decide +kernel
    · rw [h2]
      decide +kernel
    · rw [h3]
      decide +kernel
  temp text stmts stmt h hme hm := by
    left
    rw [temporaries] at h
    dsimp only at h
    split_ifs at h with h1 h2 h3
    · exact ⟨ascii "CREATE ",ascii "TEMP TABLE t ()",by rw [h1]; decide,by decide,by decide,by decide⟩
    · cases h
      rw [mem_singleton.1 hme] at hm
      exact absurd hm (by decide)
    · exact ⟨ascii "SELECT 1 INTO ",ascii "TEMP t UNION SELECT 2",by rw [h3]; decide,by decide,
        by decide,by decide⟩

theorem temp_object_severs_create :
    (handleQueryMessage temporaries.parser {}
      (Message.query.frontend (ascii "CREATE TEMP TABLE t ()"))).1.notMigratable := by
  have hp : temporaries.parse (ascii "CREATE TEMP TABLE t ()") =
      some [.createStmt (some ⟨[],ascii "t"⟩)] := rfl
  refine (temp_object_severs_iff temporaries_reads {} .query hp).2 (fun _ => ?_) ?_
  · exact .inr ⟨rfl,.inr (.inl ⟨_,mem_singleton_self _,by decide⟩)⟩
  · exact ⟨_,mem_singleton_self _,by decide⟩

/-- A relation of the schema pg_temp and a SELECT INTO in a set operation do not sever, nor does a
statement under a name that is no text. -/
theorem temp_object_kept :
    Reads temporaries ∧
      ∀ p ∈ [(ascii "CREATE TABLE pg_temp.t ()",Message.query),
        (ascii "CREATE TABLE pg_temp.t ()",named (ascii "q") (by decide)),
        (ascii "SELECT 1 INTO TEMP t UNION SELECT 2",Message.query),
        (ascii "SELECT 1 INTO TEMP t UNION SELECT 2",named (ascii "q") (by decide)),
        (ascii "CREATE TEMP TABLE t ()",named [255] (by decide))],
      ((temporaries.parse p.1).any fun stmts => stmts.any fun stmt =>
        stmt.target.any RangeVar.temporary) ∧
      (handleQueryMessage temporaries.parser {} (p.2.frontend p.1)).1.notMigratable = false :=
  ⟨temporaries_reads,by decide +kernel⟩

end SessionState
end PgBattery
