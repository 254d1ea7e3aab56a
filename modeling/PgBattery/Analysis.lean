import PgBattery.Postcard

/-! What the gateway reads in a query: the keyword scans over its bytes, the classifier over the
parsed statements, and the session changes it draws from them. A Rust string is its bytes. -/
namespace PgBattery
namespace Analysis
open Postcard

def ascii (s : String) : Bytes := s.toList.map fun c => Fin.ofNat 256 c.toNat

def isAsciiAlphanumeric (b : U8) : Bool :=
  (48 ≤ b && b ≤ 57) || (65 ≤ b && b ≤ 90) || (97 ≤ b && b ≤ 122)

def isAsciiWhitespace (b : U8) : Bool := b = 32 || b = 9 || b = 10 || b = 12 || b = 13

def toAsciiLowercase (b : U8) : U8 := if 65 ≤ b ∧ b ≤ 90 then b+32 else b

def eqIgnoreAsciiCase (a b : Bytes) : Bool := a.map toAsciiLowercase = b.map toAsciiLowercase

def isWordByte (b : U8) : Bool := isAsciiAlphanumeric b || b = 95

def isContinuation (b : U8) : Bool := 128 ≤ b && b ≤ 191

/-- Whether bytes are a Rust string: well-formed UTF-8, without overlong forms or surrogates. -/
def isUtf8 : Bytes → Bool
  | [] => true
  | a::rest =>
    if a ≤ 127 then isUtf8 rest
    else match rest with
      | [] => false
      | b::rest =>
        if 194 ≤ a ∧ a ≤ 223 then isContinuation b && isUtf8 rest
        else match rest with
          | [] => false
          | c::rest =>
            if a = 224 then 160 ≤ b && b ≤ 191 && isContinuation c && isUtf8 rest
            else if a = 237 then 128 ≤ b && b ≤ 159 && isContinuation c && isUtf8 rest
            else if 225 ≤ a ∧ a ≤ 239 then isContinuation b && isContinuation c && isUtf8 rest
            else match rest with
              | [] => false
              | d::rest =>
                if a = 240 then
                  144 ≤ b && b ≤ 191 && isContinuation c && isContinuation d && isUtf8 rest
                else if 241 ≤ a ∧ a ≤ 243 then
                  isContinuation b && isContinuation c && isContinuation d && isUtf8 rest
                else if a = 244 then
                  128 ≤ b && b ≤ 143 && isContinuation c && isContinuation d && isUtf8 rest
                else false

/-- The encodings of the white space that `trim` takes off, longer than one byte. -/
def isWideWhitespace (a b c : U8) : Bool :=
  (a = 225 && b = 154 && c = 128) ||
    (a = 226 && b = 128 && ((128 ≤ c && c ≤ 138) || c = 168 || c = 169 || c = 175)) ||
    (a = 226 && b = 129 && c = 159) || (a = 227 && b = 128 && c = 128)

def isAsciiTrimmed (b : U8) : Bool := (9 ≤ b && b ≤ 13) || b = 32

def trimStart : Bytes → Bytes
  | [] => []
  | a::rest =>
    if isAsciiTrimmed a then trimStart rest
    else match rest with
      | [] => [a]
      | b::rest =>
        if a = 194 ∧ (b = 133 ∨ b = 160) then trimStart rest
        else match rest with
          | [] => [a,b]
          | c::rest => if isWideWhitespace a b c then trimStart rest else a::b::c::rest

def trimStartReversed : Bytes → Bytes
  | [] => []
  | a::rest =>
    if isAsciiTrimmed a then trimStartReversed rest
    else match rest with
      | [] => [a]
      | b::rest =>
        if b = 194 ∧ (a = 133 ∨ a = 160) then trimStartReversed rest
        else match rest with
          | [] => [a,b]
          | c::rest => if isWideWhitespace c b a then trimStartReversed rest else a::b::c::rest

def trim (s : Bytes) : Bytes := (trimStartReversed (trimStart s).reverse).reverse

/-- A token stands at the front, with no word byte on either side. -/
def matchesAt (before : Option U8) (bytes token : Bytes) : Bool :=
  eqIgnoreAsciiCase (bytes.take token.length) token && !before.any isWordByte &&
    !(bytes.drop token.length).head?.any isWordByte

def containsTokenFrom (token : Bytes) : Option U8 → Bytes → Bool
  | _, [] => false
  | before, b::rest => matchesAt before (b::rest) token || containsTokenFrom token (some b) rest

def containsTokenCi (query token : Bytes) : Bool :=
  token ≠ [] && containsTokenFrom token none query

structure QueryKeywordFlags where
  subscription : Bool := false
  functionState : Bool := false
  tempObject : Bool := false

inductive KeywordKind
  | subscription | functionState | tempObject
  deriving DecidableEq

def QueryKeywordFlags.set (f : QueryKeywordFlags) : KeywordKind → QueryKeywordFlags
  | .subscription => {f with subscription := true}
  | .functionState => {f with functionState := true}
  | .tempObject => {f with tempObject := true}

def keywords : List (Bytes × KeywordKind) :=
  [(ascii "pg_try_advisory_lock_shared",.functionState),
    (ascii "pg_advisory_lock_shared",.functionState),
    (ascii "pg_try_advisory_lock",.functionState),
    (ascii "pg_advisory_lock",.functionState),
    (ascii "set_config",.functionState),
    (ascii "temporary",.tempObject),
    (ascii "unlisten",.subscription),
    (ascii "pg_temp",.tempObject),
    (ascii "listen",.subscription),
    (ascii "temp",.tempObject)]

/-- One pass; `skip` bytes still belong to the keyword matched last. -/
def scanKeywords : ℕ → Option U8 → QueryKeywordFlags → Bytes → QueryKeywordFlags
  | _, _, flags, [] => flags
  | skip+1, _, flags, b::rest => scanKeywords skip (some b) flags rest
  | 0, before, flags, b::rest =>
    match keywords.find? fun k => matchesAt before (b::rest) k.1 with
    | some (token,kind) => scanKeywords (token.length-1) (some b) (flags.set kind) rest
    | none => scanKeywords 0 (some b) flags rest

def queryKeywordFlags (query : Bytes) : QueryKeywordFlags := scanKeywords 0 none {} query

inductive Blank
  | space
  | line
  | block (depth : ℕ)

/-- Skip white space and comments; `none` in a comment that does not end. -/
def skipBlank : Blank → Bytes → Option Bytes
  | .space, [] => some []
  | .space, [b] => if isAsciiWhitespace b then some [] else some [b]
  | .space, a::b::rest =>
    if isAsciiWhitespace a then skipBlank .space (b::rest)
    else if a = 45 ∧ b = 45 then skipBlank .line rest
    else if a = 47 ∧ b = 42 then skipBlank (.block 1) rest
    else some (a::b::rest)
  | .line, [] => some []
  | .line, b::rest => if b = 10 then skipBlank .space rest else skipBlank .line rest
  | .block 0, bytes => some bytes
  | .block (_+1), [] => none
  | .block (_+1), [_] => none
  | .block (d+1), a::b::rest =>
    if a = 47 ∧ b = 42 then skipBlank (.block (d+2)) rest
    else if a = 42 ∧ b = 47 then
      if d = 0 then skipBlank .space rest else skipBlank (.block d) rest
    else skipBlank (.block (d+1)) (b::rest)

def firstStatementKeyword (query : Bytes) : Option Bytes :=
  (skipBlank .space query).bind fun rest =>
    let word := rest.takeWhile isWordByte
    if word = [] then none else some word

def continuesIdentifier (b : U8) : Bool :=
  isAsciiAlphanumeric b || b = 95 || b = 36 || 128 ≤ b

/-- Past the literal's closing quote; `none` where a backslash leaves the answer open. -/
def skipLiteral : Bytes → Option Bytes
  | [] => some []
  | [b] => if b = 92 then none else some []
  | a::b::rest =>
    if a = 92 then none
    else if a = 39 then if b = 39 then skipLiteral rest else some (b::rest)
    else skipLiteral (b::rest)

def skipQuotedIdentifier : Bytes → Bytes
  | [] => []
  | [_] => []
  | a::b::rest =>
    if a = 34 then if b = 34 then skipQuotedIdentifier rest else b::rest
    else skipQuotedIdentifier (b::rest)

/-- Past the first occurrence of a dollar tag, or `none`. -/
def skipDollarQuoted (tag : Bytes) : Bytes → Option Bytes
  | [] => if tag = [] then some [] else none
  | b::rest =>
    if tag.isPrefixOf (b::rest) then some ((b::rest).drop tag.length) else skipDollarQuoted tag rest

def skipBlockComment : ℕ → Bytes → Bytes
  | 0, bytes => bytes
  | _+1, [] => []
  | _+1, [_] => []
  | d+1, a::b::rest =>
    if a = 47 ∧ b = 42 then skipBlockComment (d+2) rest
    else if a = 42 ∧ b = 47 then skipBlockComment d rest
    else skipBlockComment (d+1) (b::rest)

/-- The scan for a separating semicolon; every step takes at least one byte, so a fuel of the
length is enough. -/
def scanSemicolon : ℕ → Option U8 → Bytes → Bool
  | 0, _, _ => false
  | _+1, _, [] => false
  | fuel+1, before, b::rest =>
    if b = 59 then true
    else if b = 39 then match skipLiteral rest with
      | none => true
      | some rest => scanSemicolon fuel (some 39) rest
    else if b = 34 then scanSemicolon fuel (some 34) (skipQuotedIdentifier rest)
    else if b = 36 ∧ before.any continuesIdentifier then scanSemicolon fuel (some b) rest
    else if b = 36 then
      let tag := rest.takeWhile fun c => c ≠ 36 && continuesIdentifier c
      let after := rest.drop tag.length
      if after.head? = some 36 ∧ !rest.head?.any (fun c => 48 ≤ c && c ≤ 57) then
        match skipDollarQuoted (36::tag++[36]) (after.drop 1) with
        | none => false
        | some rest => scanSemicolon fuel (some 36) rest
      else scanSemicolon fuel (some b) rest
    else if b = 45 ∧ rest.head? = some 45 then
      scanSemicolon fuel (some 45) (rest.dropWhile (· ≠ 10))
    else if b = 47 ∧ rest.head? = some 42 then
      scanSemicolon fuel (some 47) (skipBlockComment 1 (rest.drop 1))
    else scanSemicolon fuel (some b) rest

def hasTopLevelSemicolon (text : Bytes) : Bool := scanSemicolon text.length none text

def trimStatementEnd (query : Bytes) : Bytes :=
  (query.reverse.dropWhile fun b => b = 59 || isAsciiWhitespace b).reverse

def leadingStatementKeywordMatches (query : Bytes) (keywords : List Bytes) : Bool :=
  if (firstStatementKeyword query).any fun first => keywords.any (eqIgnoreAsciiCase first) then true
  else if !hasTopLevelSemicolon (trimStatementEnd query) then false
  else keywords.any (containsTokenCi query)

def mightContainSessionStateCommand (query : Bytes) : Bool :=
  leadingStatementKeywordMatches query
    [ascii "set",ascii "reset",ascii "deallocate",ascii "discard",ascii "create",ascii "prepare",
      ascii "declare",ascii "do",ascii "load",ascii "call"]

/-- A statement as PostgreSQL's raw parser reports it, down to what the classifier reads. -/
inductive Node
  | listenStmt (conditionname : Bytes)
  | unlistenStmt (conditionname : Bytes)
  | variableSetStmt (isLocal : Bool)
  | deallocateStmt (isall : Bool) (name : Bytes)
  | discardStmt (all : Bool)
  | createStmt (temp : Bool)
  | createTableAsStmt (temp : Bool)
  | viewStmt (temp : Bool)
  | createSeqStmt (temp : Bool)
  | selectStmt (intoTemp : Bool)
  | prepareStmt
  | doStmt
  | callStmt
  | loadStmt
  | declareCursorStmt (hold : Bool)
  | transactionStmt
  /-- DML, COPY, FETCH, CLOSE, LOCK, EXECUTE and SHOW. -/
  | leavesNoSessionState
  | other
  deriving DecidableEq

inductive SessionChange
  | listen (channel : Bytes)
  | unlisten (channel : Bytes)
  | unlistenAll
  | setSessionVar
  | deallocate (name : Bytes)
  | deallocateAll
  | discardAll
  | nonMigratable (reason : String)
  deriving DecidableEq

inductive StatementClass
  | modeled (change : Option SessionChange)
  | unmodeled

def normalizeConditionName (name : Bytes) : Option Bytes :=
  if trim name = [] then none else some (trim name)

def tempChange (temp : Bool) (reason : String) : Option SessionChange :=
  if temp then some (.nonMigratable reason) else none

def classifyStatement : Node → StatementClass
  | .listenStmt name => .modeled ((normalizeConditionName name).map .listen)
  | .unlistenStmt name =>
    let condition := trim name
    .modeled (some (if condition = [] ∨ condition = ascii "*" then .unlistenAll
      else .unlisten condition))
  | .variableSetStmt isLocal => .modeled (if isLocal then none else some .setSessionVar)
  | .deallocateStmt isall name =>
    .modeled (if isall then some .deallocateAll else if name = [] then none
      else some (.deallocate name))
  | .discardStmt all => .modeled (if all then some .discardAll else none)
  | .createStmt temp => .modeled (tempChange temp "temp table")
  | .createTableAsStmt temp => .modeled (tempChange temp "temp table (CREATE TABLE AS)")
  | .viewStmt temp => .modeled (tempChange temp "temp view")
  | .createSeqStmt temp => .modeled (tempChange temp "temp sequence")
  | .selectStmt temp => .modeled (tempChange temp "temp table (SELECT INTO)")
  | .prepareStmt => .modeled (some (.nonMigratable "SQL PREPARE"))
  | .doStmt => .modeled (some (.nonMigratable "DO block (opaque body)"))
  | .callStmt => .modeled (some (.nonMigratable "CALL (opaque procedure body)"))
  | .loadStmt => .modeled (some (.nonMigratable "LOAD (session-local library)"))
  | .declareCursorStmt hold => .modeled (tempChange hold "WITH HOLD cursor")
  | .transactionStmt | .leavesNoSessionState => .modeled none
  | .other => .unmodeled

structure QueryAnalysis where
  sessionChanges : List SessionChange := []
  controlsTransaction : Bool := false

/-- The embedded parser, its scanner, and the lossy reading of bytes as text. -/
structure Parser where
  parse : Bytes → Option (List Node)
  splitWithScanner : Bytes → Option (List Bytes)
  fromUtf8Lossy : Bytes → Bytes

def rejecting : Parser where
  parse _ := none
  splitWithScanner _ := none
  fromUtf8Lossy := id

def accumulateStatement (namesTempObject : Bool) (analysis : QueryAnalysis) (node : Node) :
    QueryAnalysis :=
  let analysis := {analysis with
    controlsTransaction := analysis.controlsTransaction || node = .transactionStmt}
  match classifyStatement node with
  | .modeled (some change) =>
    {analysis with sessionChanges := analysis.sessionChanges++[change]}
  | .unmodeled =>
    if namesTempObject then
      {analysis with sessionChanges := analysis.sessionChanges++
        [.nonMigratable "unmodeled statement naming a temp-scoped object"]}
    else analysis
  | .modeled none => analysis

def accumulateQueryAnalysis (analysis : QueryAnalysis) (result : List Node)
    (namesTempObject : Bool) : QueryAnalysis :=
  result.foldl (accumulateStatement namesTempObject) analysis

/-- What can still be parsed of a text that as a whole cannot. -/
def salvage (sql : Parser) (analysis : QueryAnalysis) (statement : Bytes) : QueryAnalysis :=
  match sql.parse statement with
  | some parsed => accumulateQueryAnalysis analysis parsed (queryKeywordFlags statement).tempObject
  | none => analysis

def analyzeQuery (sql : Parser) (query : Bytes) : QueryAnalysis :=
  match sql.parse query with
  | some parsed => accumulateQueryAnalysis {} parsed (queryKeywordFlags query).tempObject
  | none =>
    let analysis := ((sql.splitWithScanner query).getD []).foldl (salvage sql) {}
    {analysis with sessionChanges := analysis.sessionChanges++
      [.nonMigratable "statement the embedded SQL parser cannot parse"]}

def analyzerFindsSessionState (sql : Parser) (query : Bytes) : Bool :=
  (analyzeQuery sql query).sessionChanges ≠ []

end Analysis
end PgBattery
