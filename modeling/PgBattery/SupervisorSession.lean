import PgBattery.SqlReply
import PgBattery.SqlScript

/-! The supervisor's transactions: statements joined to one query, and the query sent again on a fresh
connection when the first one breaks. -/
namespace PgBattery
namespace SupervisorSession
open SqlReply SqlScript List

section Session

inductive Kind
  | empty | begin | commit | rollback | statement
  deriving DecidableEq, Repr

/-- PostgreSQL's keywords and grammar, as far as they matter here. -/
structure Language where
  /-- `split_with_scanner` leaves out what has no keyword. -/
  keyworded : Text → Bool
  kind : Text → Kind
  kind_begin : kind "BEGIN".toList = .begin
  kind_commit : kind "COMMIT".toList = .commit

def oneStatement (lang : Language) (sql : Text) : Bool :=
  match read sql with
  | none => false
  | some statements => (statements.filter lang.keyworded).length = 1

/-- `statement.trim().trim_end_matches(';')`. -/
def strip (statement : Text) : Text := (trim statement).rdropWhile (· = ';')

def script (statements : List Text) : Text :=
  "BEGIN;".toList++(statements.flatMap fun s => ' '::(strip s++[';']))++" COMMIT;".toList

/-- What the server decides: to refuse a query it cannot parse, before any of it runs, and to fail a
statement, given what is committed and what the transaction has done. -/
structure Server where
  refuses : List Text → Bool
  fails : List (List Text) → List Text → Text → Bool

structure Backend where
  committed : List (List Text)
  pending : List Text
  block : Bool
  deriving DecidableEq, Repr

def commit (committed : List (List Text)) (pending : List Text) : List (List Text) :=
  if pending = [] then committed else committed++[pending]

variable (lang : Language) (srv : Server)

def exec (b : Backend) (statement : Text) : Option Backend :=
  match lang.kind statement with
  | .empty => some b
  | .begin => some {b with block := true}
  | .commit => some ⟨commit b.committed b.pending,[],false⟩
  | .rollback => some ⟨b.committed,[],false⟩
  | .statement =>
    if srv.fails b.committed b.pending statement then none
    else some {b with pending := b.pending++[statement]}

inductive Reply
  | done | error | cut
  deriving DecidableEq, Repr

/-- The statements of a query, of which the server gets through `limit`. What is outside of a block is
committed when the query is through. -/
def perform : ℕ → Backend → List Text → Backend × Reply
  | _, b, [] => (if b.block then b else ⟨commit b.committed b.pending,[],false⟩,.done)
  | 0, b, _::_ => (⟨b.committed,[],false⟩,.cut)
  | limit+1, b, statement::rest =>
    match exec lang srv b statement with
    | none => (⟨b.committed,[],false⟩,.error)
    | some b' => perform limit b' rest

def simpleQuery (limit : Option ℕ) (b : Backend) (sql : Text) : Backend × Reply :=
  match read sql with
  | none => (⟨b.committed,[],false⟩,.error)
  | some statements =>
    if srv.refuses statements then (⟨b.committed,[],false⟩,.error)
    else perform lang srv (limit.getD statements.length) b statements

inductive Attempt
  /-- No connection; `answered` is whether the server gave a reason other than `cannot_connect_now`. -/
  | refused (answered : Bool)
  | answered
  /-- The connection breaks; the server gets through `executed` statements. -/
  | lost (executed : ℕ)
  /-- `SQL_TIMEOUT` passes; the server still gets through `executed` statements. -/
  | timedOut (executed : ℕ)
  deriving DecidableEq, Repr

/-- `Error::Postgres` is here the server's answer only, and not the time-out. -/
inductive Outcome
  | ok | postgres | timedOut | notReady | protocol
  deriving DecidableEq, Repr

structure Connection where
  pending : List Text
  block : Bool
  deriving DecidableEq, Repr

def Connection.idle : Connection := ⟨[],false⟩

structure World where
  committed : List (List Text)
  client : Option Connection
  deriving DecidableEq, Repr

def World.backend (w : World) : Backend :=
  let connection := w.client.getD .idle
  ⟨w.committed,connection.pending,connection.block⟩

/-- No outcome is a connection that broke. -/
def attempt (sql : Text) (w : World) : Attempt → World × Option Outcome
  | .refused answered => (⟨w.committed,none⟩,some (if answered then .postgres else .notReady))
  | .answered =>
    let r := simpleQuery lang srv none w.backend sql
    if r.2 = .done then (⟨r.1.committed,some ⟨r.1.pending,r.1.block⟩⟩,some .ok)
    else (⟨r.1.committed,none⟩,some .postgres)
  | .lost executed => (⟨(simpleQuery lang srv (some executed) w.backend sql).1.committed,none⟩,none)
  | .timedOut executed =>
    (⟨(simpleQuery lang srv (some executed) w.backend sql).1.committed,none⟩,some .timedOut)

/-- A connection that broke is tried once more. -/
def run (sql : Text) (w : World) (first second : Attempt) : World × Outcome :=
  match attempt lang srv sql w first with
  | (w',some outcome) => (w',outcome)
  | (w',none) =>
    match attempt lang srv sql w' second with
    | (w'',some outcome) => (w'',outcome)
    | (w'',none) => (w'',.notReady)

def executeTransaction (statements : List Text) (w : World) (first second : Attempt) : World × Outcome :=
  if statements.all (oneStatement lang) then run lang srv (script statements) w first second
  else (w,.protocol)

end Session

section Purpose

def parts (statements : List Text) : List Text := statements.flatMap fun s => (read s).getD []

def body (lang : Language) (statements : List Text) : List Text :=
  (parts statements).filter fun t => lang.kind t = .statement

def Idle (client : Option Connection) : Prop := ∀ c ∈ client, c = Connection.idle

/-- No text changes how the rest is read; whatever is committed is these statements in one transaction;
exactly once if the caller is told so, and not at all if it is told of a server error. -/
structure Sound (lang : Language) (statements : List Text) (first second : Attempt) : Prop where
  reads : ∀ s ∈ statements, ∀ rest,
    read (' '::(strip s++ ';'::rest)) = (read rest).map ((read s).getD []++·)
  commits : ∀ srv w, Idle w.client →
    ∃ n, (executeTransaction lang srv statements w first second).1.committed =
      (fun c => commit c (body lang statements))^[n] w.committed
  once : ∀ srv w, Idle w.client → (executeTransaction lang srv statements w first second).2 = .ok →
    (executeTransaction lang srv statements w first second).1.committed =
      commit w.committed (body lang statements)
  nothing : ∀ srv w, Idle w.client → (executeTransaction lang srv statements w first second).2 = .postgres →
    (executeTransaction lang srv statements w first second).1.committed = w.committed
  idle : ∀ srv w, Idle w.client → Idle (executeTransaction lang srv statements w first second).1.client

/-- The text can be joined: stripped, it reads as before, and ends in no comment and no parenthesis. -/
def Joins (s : Text) : Prop := (scan (strip s)).whole = true ∧ read (strip s) = read s

instance instDecidableJoins (s : Text) : Decidable (Joins s) :=
  inferInstanceAs (Decidable ((scan (strip s)).whole = true ∧ read (strip s) = read s))

/-- The first connection breaks when the server has got through the COMMIT, and the second attempt gets
an answer. -/
def CommitLost (statements : List Text) (first second : Attempt) : Prop :=
  ∃ executed, first = .lost executed ∧ (parts statements).length+2 ≤ executed ∧
    (second = .answered ∨ second = .refused true)

end Purpose

section Script
variable {lang : Language} {statements : List Text} {s : Text}

theorem read_stripped (h : Joins s) (rest : Text) :
    read (' '::(strip s++ ';'::rest)) = (read rest).map ((read s).getD []++·) := by
  have hs : read (' '::(strip s++ ';'::rest)) = read (strip s++ ';'::rest) := rfl
  rw [hs,read_append h.1 rest,← h.2,read_of_whole h.1]
  rfl

theorem flatMap_strip (s : Text) (statements : List Text) (tail : Text) :
    ((s::statements).flatMap fun s => ' '::(strip s++[';']))++tail =
      ' '::(strip s++ ';'::((statements.flatMap fun s => ' '::(strip s++[';']))++tail)) := by
  rw [flatMap_cons,append_assoc,cons_append,append_assoc,singleton_append]

theorem append_singleton_append (start : Text) (c : Char) (middle tail : Text) :
    start++[c]++middle++tail = start++c::(middle++tail) := by
  rw [append_assoc,append_assoc,singleton_append]

theorem read_statements (h : ∀ s ∈ statements, Joins s) :
    read ((statements.flatMap fun s => ' '::(strip s++[';']))++" COMMIT;".toList) =
      some (parts statements++["COMMIT".toList]) := by
  induction statements with
  | nil => decide
  | cons s statements ih =>
    obtain ⟨hs,hr⟩ := forall_mem_cons.1 h
    have hsc : ((s::statements).flatMap fun s => ' '::(strip s++[';']))++" COMMIT;".toList =
        ' '::(strip s++ ';'::((statements.flatMap fun s => ' '::(strip s++[';']))++" COMMIT;".toList)) :=
      flatMap_strip s statements _
    rw [hsc,read_stripped hs,ih hr,Option.map_some,parts,parts,flatMap_cons,append_assoc]

theorem read_script (h : ∀ s ∈ statements, Joins s) :
    read (script statements) = some ("BEGIN".toList::(parts statements++["COMMIT".toList])) := by
  have hsc : script statements = "BEGIN".toList++ ';'::((statements.flatMap fun s =>
      ' '::(strip s++[';']))++" COMMIT;".toList) := by
    have hs : "BEGIN;".toList = "BEGIN".toList++[';'] := by decide
    show "BEGIN;".toList++(statements.flatMap fun s => ' '::(strip s++[';']))++" COMMIT;".toList = _
    rw [hs]
    exact append_singleton_append _ _ _ _
  have hw : (scan "BEGIN".toList).whole := by decide
  have hb : (scan "BEGIN".toList).done++closed (scan "BEGIN".toList).cur = ["BEGIN".toList] := by decide
  have hr : ∀ rest, read ("BEGIN".toList++ ';'::rest) = (read rest).map (["BEGIN".toList]++·) := by
    intro rest
    have hre := read_append hw rest
    rwa [hb] at hre
  rw [hsc,hr,read_statements h,Option.map_some,singleton_append]

theorem joins_of_reads (hs : oneStatement lang s)
    (h : ∀ rest, read (' '::(strip s++ ';'::rest)) = (read rest).map ((read s).getD []++·)) : Joins s := by
  have hw : (scan (strip s)).whole := whole_of_read h
  refine ⟨hw,?_⟩
  have he := h []
  have hsp : read (' '::(strip s++[';'])) = read (strip s++[';']) := rfl
  rw [hsp,read_append hw] at he
  have heq : (scan (strip s)).done++closed (scan (strip s)).cur = (read s).getD [] := by
    have hn : read [] = some [] := rfl
    rw [hn,Option.map_some,Option.map_some,append_nil,append_nil] at he
    exact Option.some.inj he
  rw [read_of_whole hw,heq]
  cases hr : read s with
  | none => rw [oneStatement,hr] at hs; cases hs
  | some l => rfl

end Script

section Query
variable {lang : Language} {srv : Server} {statements : List Text} {committed : List (List Text)}

/-- The texts are statements, and none controls the transaction. -/
def Plain (lang : Language) (texts : List Text) : Prop :=
  ∀ t ∈ texts, lang.kind t = .empty ∨ lang.kind t = .statement

theorem perform_commit (limit : ℕ) (pending : List Text) :
    perform lang srv (limit+1) ⟨committed,pending,true⟩ ["COMMIT".toList] =
      (⟨commit committed pending,[],false⟩,.done) := by
  rw [perform,exec,lang.kind_commit]
  cases limit <;> rfl

instance instDecidablePlain (lang : Language) (texts : List Text) : Decidable (Plain lang texts) :=
  inferInstanceAs (Decidable (∀ t ∈ texts, lang.kind t = .empty ∨ lang.kind t = .statement))

theorem perform_block {texts : List Text} (h : Plain lang texts) (limit : ℕ) (pending : List Text) :
    ((perform lang srv limit ⟨committed,pending,true⟩ (texts++["COMMIT".toList])).2 = .done ∧
      texts.length+1 ≤ limit ∧
      (perform lang srv limit ⟨committed,pending,true⟩ (texts++["COMMIT".toList])).1 =
        ⟨commit committed (pending++texts.filter fun t => lang.kind t = .statement),[],false⟩) ∨
    ((perform lang srv limit ⟨committed,pending,true⟩ (texts++["COMMIT".toList])).2 ≠ .done ∧
      (perform lang srv limit ⟨committed,pending,true⟩ (texts++["COMMIT".toList])).1 = ⟨committed,[],false⟩) := by
  induction texts generalizing limit pending with
  | nil =>
    cases limit with
    | zero => exact .inr ⟨Reply.noConfusion,rfl⟩
    | succ limit =>
      left
      rw [nil_append,perform_commit,filter_nil,append_nil]
      exact ⟨rfl,Nat.le_add_left 1 limit,rfl⟩
  | cons t texts ih =>
    obtain ⟨ht,hr⟩ := forall_mem_cons.1 h
    cases limit with
    | zero => exact .inr ⟨Reply.noConfusion,rfl⟩
    | succ limit =>
      rw [cons_append,perform,exec]
      rcases ht with he | hs
      · have hsk : (t::texts).filter (fun t => lang.kind t = .statement) =
            texts.filter fun t => lang.kind t = .statement := by simp [he]
        rw [he,hsk,length_cons,Nat.add_le_add_iff_right]
        exact ih hr limit pending
      · have hk : pending++(t::texts).filter (fun t => lang.kind t = .statement) =
            (pending++[t])++texts.filter fun t => lang.kind t = .statement := by simp [hs]
        rw [hs,hk,length_cons,Nat.add_le_add_iff_right]
        by_cases hf : srv.fails committed pending t
        · right
          simp [hf]
        · simp only [hf]
          exact ih hr limit (pending++[t])

theorem perform_done {texts : List Text} (h : Plain lang texts) (hsr : ∀ c p t, srv.fails c p t = false)
    {limit : ℕ} (hl : texts.length+1 ≤ limit) (pending : List Text) :
    (perform lang srv limit ⟨committed,pending,true⟩ (texts++["COMMIT".toList])).2 = .done := by
  induction texts generalizing limit pending with
  | nil =>
    obtain ⟨limit,rfl⟩ := Nat.exists_eq_add_of_le' hl
    rw [nil_append]
    exact congrArg Prod.snd (perform_commit limit pending)
  | cons t texts ih =>
    obtain ⟨ht,hr⟩ := forall_mem_cons.1 h
    obtain ⟨limit,rfl⟩ := Nat.exists_eq_add_of_le' (Nat.le_trans (Nat.le_add_left 1 _) hl)
    have hl' : texts.length+1 ≤ limit := by
      rw [length_cons] at hl
      omega
    rw [cons_append,perform,exec]
    rcases ht with he | hs
    · rw [he]
      exact ih hr hl' pending
    · rw [hs,hsr]
      exact ih hr hl' (pending++[t])

end Query

section Attempts
variable {lang : Language} {srv : Server} {statements : List Text} {w : World}

theorem simpleQuery_joined (hj : ∀ s ∈ statements, Joins s) (limit : Option ℕ) (b : Backend) :
    simpleQuery lang srv limit b (script statements) =
      if srv.refuses ("BEGIN".toList::(parts statements++["COMMIT".toList])) then
        (⟨b.committed,[],false⟩,.error)
      else perform lang srv (limit.getD ((parts statements).length+2)) b
        ("BEGIN".toList::(parts statements++["COMMIT".toList])) := by
  have hl : ("BEGIN".toList::(parts statements++["COMMIT".toList])).length =
      (parts statements).length+2 := by simp
  rw [simpleQuery,read_script hj,← hl]

theorem perform_begin (limit : ℕ) (committed : List (List Text)) (texts : List Text) :
    perform lang srv (limit+1) ⟨committed,[],false⟩ ("BEGIN".toList::texts) =
      perform lang srv limit ⟨committed,[],true⟩ texts := by
  rw [perform,exec,lang.kind_begin]

/-- The script as a query on an idle connection. -/
theorem simpleQuery_script (hj : ∀ s ∈ statements, Joins s) (hp : Plain lang (parts statements))
    (limit : Option ℕ) (committed : List (List Text)) :
    ((simpleQuery lang srv limit ⟨committed,[],false⟩ (script statements)).2 = .done ∧
      (∀ executed ∈ limit, (parts statements).length+2 ≤ executed) ∧
      (simpleQuery lang srv limit ⟨committed,[],false⟩ (script statements)).1 =
        ⟨commit committed (body lang statements),[],false⟩) ∨
    ((simpleQuery lang srv limit ⟨committed,[],false⟩ (script statements)).2 ≠ .done ∧
      (simpleQuery lang srv limit ⟨committed,[],false⟩ (script statements)).1 = ⟨committed,[],false⟩) := by
  rw [simpleQuery_joined hj]
  by_cases hr : srv.refuses ("BEGIN".toList::(parts statements++["COMMIT".toList]))
  · rw [if_pos hr]
    exact .inr ⟨Reply.noConfusion,rfl⟩
  · rw [if_neg hr]
    cases hl : limit.getD ((parts statements).length+2) with
    | zero => exact .inr ⟨Reply.noConfusion,rfl⟩
    | succ n =>
      rw [perform_begin]
      rcases perform_block hp n [] with ⟨hd,hn,hb⟩ | hf
      · refine .inl ⟨hd,fun executed hm => ?_,hb⟩
        rw [Option.mem_def.1 hm] at hl
        rw [show executed = n+1 from hl]
        omega
      · exact .inr hf

theorem simpleQuery_done (hj : ∀ s ∈ statements, Joins s) (hp : Plain lang (parts statements))
    (hr : ∀ l, srv.refuses l = false) (hf : ∀ c p t, srv.fails c p t = false) {limit : Option ℕ}
    (hl : ∀ executed ∈ limit, (parts statements).length+2 ≤ executed) (committed : List (List Text)) :
    (simpleQuery lang srv limit ⟨committed,[],false⟩ (script statements)).2 = .done := by
  obtain ⟨n,hn,hle⟩ : ∃ n, limit.getD ((parts statements).length+2) = n+1 ∧
      (parts statements).length+1 ≤ n := by
    cases limit with
    | none => exact ⟨(parts statements).length+1,rfl,Nat.le_refl _⟩
    | some executed =>
      obtain ⟨n,hn⟩ := Nat.exists_eq_add_of_le' (hl executed rfl)
      exact ⟨n+((parts statements).length+1),by rw [Option.getD_some,hn]; omega,Nat.le_add_left _ _⟩
  rw [simpleQuery_joined hj,hr,if_neg Bool.false_ne_true,hn,perform_begin]
  exact perform_done hp hf hle []

theorem backend_of_idle (h : Idle w.client) : w.backend = ⟨w.committed,[],false⟩ := by
  cases hcl : w.client with
  | none => rw [World.backend,hcl]; rfl
  | some c =>
    have hc : c = Connection.idle := h c hcl
    rw [World.backend,hcl,hc]
    rfl

theorem idle_none : Idle none := fun _ h => nomatch h

structure Attempted (lang : Language) (statements : List Text) (a : Attempt) (w : World)
    (r : World × Option Outcome) : Prop where
  committed : r.1.committed = w.committed ∨ r.1.committed = commit w.committed (body lang statements)
  idle : Idle r.1.client
  ok : r.2 = some .ok → r.1.committed = commit w.committed (body lang statements)
  postgres : r.2 = some .postgres → r.1.committed = w.committed ∧ (a = .answered ∨ a = .refused true)
  broken : r.2 = none → ∃ executed, a = .lost executed ∧
    (r.1.committed = w.committed ∨ (parts statements).length+2 ≤ executed)
  answered : r.2 = some .ok → a = .answered

theorem attempted (hj : ∀ s ∈ statements, Joins s) (hp : Plain lang (parts statements))
    (hi : Idle w.client) (a : Attempt) :
    Attempted lang statements a w (attempt lang srv (script statements) w a) := by
  cases a with
  | refused answered =>
    refine ⟨.inl rfl,idle_none,?_,?_,?_,?_⟩
    · cases answered <;> intro h <;> cases h
    · cases answered with
      | false => intro h; cases h
      | true => exact fun _ => ⟨rfl,.inr rfl⟩
    · intro h; cases h
    · cases answered <;> intro h <;> cases h
  | answered =>
    rw [attempt,backend_of_idle hi]
    rcases @simpleQuery_script lang srv statements hj hp none w.committed with ⟨hd,-,hb⟩ | ⟨hf,hb⟩
    · rw [if_pos hd,hb]
      refine ⟨.inr rfl,?_,fun _ => rfl,fun h => ?_,fun h => ?_,fun _ => rfl⟩
      · intro c hc
        exact (Option.some.inj hc).symm
      · cases h
      · cases h
    · rw [if_neg hf,hb]
      refine ⟨.inl rfl,idle_none,fun h => ?_,fun _ => ⟨rfl,.inl rfl⟩,fun h => ?_,fun h => ?_⟩
      · cases h
      · cases h
      · cases h
  | lost executed =>
    rw [attempt,backend_of_idle hi]
    refine ⟨?_,idle_none,fun h => ?_,fun h => ?_,fun _ => ⟨executed,rfl,?_⟩,fun h => ?_⟩
    · rcases @simpleQuery_script lang srv statements hj hp (some executed) w.committed with ⟨-,-,hb⟩ | ⟨-,hb⟩
      · rw [hb]; exact .inr rfl
      · rw [hb]; exact .inl rfl
    · cases h
    · cases h
    · rcases @simpleQuery_script lang srv statements hj hp (some executed) w.committed with ⟨-,hn,-⟩ | ⟨-,hb⟩
      · exact .inr (hn executed rfl)
      · rw [hb]; exact .inl rfl
    · cases h
  | timedOut executed =>
    rw [attempt,backend_of_idle hi]
    refine ⟨?_,idle_none,fun h => ?_,fun h => ?_,fun h => ?_,fun h => ?_⟩
    · rcases @simpleQuery_script lang srv statements hj hp (some executed) w.committed with ⟨-,-,hb⟩ | ⟨-,hb⟩
      · rw [hb]; exact .inr rfl
      · rw [hb]; exact .inl rfl
    · cases h
    · cases h
    · cases h
    · cases h

end Attempts

section Transaction
variable {lang : Language} {srv : Server} {statements : List Text} {first second : Attempt}

theorem executeTransaction_eq (h : ∀ s ∈ statements, oneStatement lang s) (w : World) :
    executeTransaction lang srv statements w first second =
      run lang srv (script statements) w first second := if_pos (all_eq_true.2 h)

theorem run_first {sql : Text} {w w₁ : World} {outcome : Outcome}
    (h : attempt lang srv sql w first = (w₁,some outcome)) :
    run lang srv sql w first second = (w₁,outcome) := by
  rw [run,h]

theorem run_second {sql : Text} {w w₁ w₂ : World} {o : Option Outcome}
    (h : attempt lang srv sql w first = (w₁,none)) (h₂ : attempt lang srv sql w₁ second = (w₂,o)) :
    run lang srv sql w first second = (w₂,o.getD .notReady) := by
  rw [run,h]
  show (match attempt lang srv sql w₁ second with | (w'',some outcome) => _ | (w'',none) => _) = _
  rw [h₂]
  cases o <;> rfl

/-- Statements that can be joined are committed at most once for each attempt, and no connection is kept
that is in a transaction. -/
theorem run_spec (hj : ∀ s ∈ statements, Joins s) (hp : Plain lang (parts statements))
    (hl : body lang statements = [] ∨ ¬CommitLost statements first second) {w : World}
    (hi : Idle w.client) :
    (∃ n, (run lang srv (script statements) w first second).1.committed =
      (fun c => commit c (body lang statements))^[n] w.committed) ∧
    ((run lang srv (script statements) w first second).2 = .ok →
      (run lang srv (script statements) w first second).1.committed =
        commit w.committed (body lang statements)) ∧
    ((run lang srv (script statements) w first second).2 = .postgres →
      (run lang srv (script statements) w first second).1.committed = w.committed) ∧
    Idle (run lang srv (script statements) w first second).1.client := by
  have hf := @attempted lang srv statements w hj hp hi first
  rcases hat : attempt lang srv (script statements) w first with ⟨w₁,o₁⟩
  rw [hat] at hf
  cases o₁ with
  | some outcome =>
    rw [run_first hat]
    refine ⟨?_,fun h => hf.ok (congrArg some h),fun h => (hf.postgres (congrArg some h)).1,hf.idle⟩
    rcases hf.committed with hsa | hd
    · exact ⟨0,hsa⟩
    · exact ⟨1,hd⟩
  | none =>
    have hs := @attempted lang srv statements w₁ hj hp hf.idle second
    obtain ⟨executed,rfl,hb⟩ := hf.broken rfl
    rcases ha₂ : attempt lang srv (script statements) w₁ second with ⟨w₂,o₂⟩
    rw [ha₂] at hs
    rw [run_second hat ha₂]
    have hc : ∃ n, w₂.committed = (fun c => commit c (body lang statements))^[n] w.committed := by
      rcases hf.committed with h₁ | h₁ <;> rcases hs.committed with h₂ | h₂
      · exact ⟨0,h₂.trans h₁⟩
      · exact ⟨1,by rw [h₂,h₁]; rfl⟩
      · exact ⟨1,h₂.trans h₁⟩
      · exact ⟨2,by rw [h₂,h₁]; rfl⟩
    -- a first attempt that may have committed gets no answer in the second
    have ha : second = .answered ∨ second = .refused true → w₁.committed = w.committed := by
      intro han
      rcases hb with hsa | hle
      · exact hsa
      · rcases hl with hn | hno
        · rcases hf.committed with hsa | hd
          · exact hsa
          · rw [hd,hn]
            rfl
        · exact absurd ⟨executed,rfl,hle,han⟩ hno
    cases o₂ with
    | some outcome =>
      refine ⟨hc,fun h => ?_,fun h => ?_,hs.idle⟩
      · rw [← ha (.inl (hs.answered (congrArg some h)))]
        exact hs.ok (congrArg some h)
      · obtain ⟨hsa,han⟩ := hs.postgres (congrArg some h)
        exact hsa.trans (ha han)
    | none =>
      refine ⟨hc,fun h => ?_,fun h => ?_,hs.idle⟩
      · cases h
      · cases h

def willing : Server := ⟨fun _ => false,fun _ _ _ => false⟩

theorem attempt_willing (hj : ∀ s ∈ statements, Joins s) (hp : Plain lang (parts statements))
    (committed : List (List Text)) :
    attempt lang willing (script statements) ⟨committed,none⟩ .answered =
        (⟨commit committed (body lang statements),some .idle⟩,some .ok) ∧
      ∀ executed, (parts statements).length+2 ≤ executed →
        attempt lang willing (script statements) ⟨committed,none⟩ (.lost executed) =
          (⟨commit committed (body lang statements),none⟩,none) := by
  have hq : ∀ limit : Option ℕ, (∀ executed ∈ limit, (parts statements).length+2 ≤ executed) →
      simpleQuery lang willing limit ⟨committed,[],false⟩ (script statements) =
        (⟨commit committed (body lang statements),[],false⟩,.done) := by
    intro limit hl
    have hd := @simpleQuery_done lang willing statements hj hp (fun _ => rfl) (fun _ _ _ => rfl)
      limit hl committed
    rcases @simpleQuery_script lang willing statements hj hp limit committed with ⟨-,-,hb⟩ | ⟨hf,-⟩
    · exact Prod.ext hb hd
    · exact absurd hd hf
  have hba : World.backend ⟨committed,none⟩ = ⟨committed,[],false⟩ := rfl
  refine ⟨?_,fun executed hle => ?_⟩
  · rw [attempt,hba,hq none fun _ h => nomatch h]
    rfl
  · rw [attempt,hba,hq (some executed) fun n hn => (Option.some.inj hn) ▸ hle]

theorem not_commitLost_of_sound (hon : ∀ s ∈ statements, oneStatement lang s)
    (hj : ∀ s ∈ statements, Joins s) (hp : Plain lang (parts statements))
    (h : Sound lang statements first second) :
    body lang statements = [] ∨ ¬CommitLost statements first second := by
  by_cases hni : body lang statements = []
  · exact .inl hni
  right
  rintro ⟨executed,rfl,hle,hs⟩
  have hc : ∀ c, commit c (body lang statements) = c++[body lang statements] := fun c => if_neg hni
  have hf := (attempt_willing hj hp []).2 executed hle
  rcases hs with rfl | rfl
  · have hr : executeTransaction lang willing statements ⟨[],none⟩ (.lost executed) .answered =
        (⟨commit (commit [] (body lang statements)) (body lang statements),some .idle⟩,.ok) := by
      rw [executeTransaction_eq hon]
      exact run_second hf (attempt_willing hj hp (commit [] (body lang statements))).1
    have ho := h.once willing ⟨[],none⟩ idle_none (by rw [hr])
    rw [hr] at ho
    simp [hc] at ho
  · have hr : executeTransaction lang willing statements ⟨[],none⟩ (.lost executed) (.refused true) =
        (⟨commit [] (body lang statements),none⟩,.postgres) := by
      rw [executeTransaction_eq hon]
      exact run_second hf rfl
    have hn := h.nothing willing ⟨[],none⟩ idle_none (by rw [hr])
    rw [hr] at hn
    simp [hc] at hn

/-- A transaction is what it is meant to be exactly when its texts can be joined, and no commit is lost
with the connection before a second attempt gets an answer. -/
theorem sound_iff (first second : Attempt) (hone : ∀ s ∈ statements, oneStatement lang s = true)
    (hplain : Plain lang (parts statements)) :
    Sound lang statements first second ↔ (∀ s ∈ statements, Joins s) ∧
      (body lang statements = [] ∨ ¬CommitLost statements first second) := by
  constructor
  · intro h
    have hj : ∀ s ∈ statements, Joins s := fun s hs => joins_of_reads (hone s hs) (h.reads s hs)
    exact ⟨hj,not_commitLost_of_sound hone hj hplain h⟩
  · rintro ⟨hj,hl⟩
    refine ⟨fun s hs => read_stripped (hj s hs),fun srv w hi => ?_,fun srv w hi => ?_,
      fun srv w hi => ?_,fun srv w hi => ?_⟩ <;> rw [executeTransaction_eq hone]
    · exact (run_spec hj hplain hl hi).1
    · exact (run_spec hj hplain hl hi).2.1
    · exact (run_spec hj hplain hl hi).2.2.1
    · exact (run_spec hj hplain hl hi).2.2.2

end Transaction

section Sample

def sampleLanguage : Language where
  keyworded := fun _ => true
  kind := fun t => if t = "BEGIN".toList then .begin else if t = "COMMIT".toList then .commit else .statement
  kind_begin := rfl
  kind_commit := rfl

/-- Statements without a comment at the end, on a connection that breaks before the COMMIT. -/
theorem sound_sample : Sound sampleLanguage ["DELETE FROM a; ".toList,"INSERT INTO a VALUES (';')".toList]
    (.lost 3) .answered := by
  have ho : ∀ s ∈ ["DELETE FROM a; ".toList,"INSERT INTO a VALUES (';')".toList],
      oneStatement sampleLanguage s := by decide +kernel
  have hp : Plain sampleLanguage (parts ["DELETE FROM a; ".toList,"INSERT INTO a VALUES (';')".toList]) := by
    decide +kernel
  have hl : ¬(parts ["DELETE FROM a; ".toList,"INSERT INTO a VALUES (';')".toList]).length+2 ≤ 3 := by
    decide +kernel
  refine (sound_iff (.lost 3) .answered ho hp).2 ⟨by decide +kernel,.inr ?_⟩
  rintro ⟨executed,heq,hle,-⟩
  obtain rfl : 3 = executed := Attempt.lost.inj heq
  exact hl hle

/-- A comment at the end of a statement takes the COMMIT with it, and the connection is kept in the open
transaction; a commit lost with the connection is made twice. -/
theorem transaction_unsound :
    (oneStatement sampleLanguage "DELETE FROM a -- all".toList = true ∧
      executeTransaction sampleLanguage willing ["DELETE FROM a -- all".toList] ⟨[],none⟩ .answered .answered =
        (⟨[],some ⟨["DELETE FROM a -- all; COMMIT;".toList],true⟩⟩,.ok) ∧
      ¬Sound sampleLanguage ["DELETE FROM a -- all".toList] .answered .answered) ∧
    (oneStatement sampleLanguage "INSERT INTO a VALUES (1)".toList = true ∧
      executeTransaction sampleLanguage willing ["INSERT INTO a VALUES (1)".toList] ⟨[],none⟩ (.lost 3) .answered =
        (⟨[["INSERT INTO a VALUES (1)".toList],["INSERT INTO a VALUES (1)".toList]],some .idle⟩,.ok) ∧
      ¬Sound sampleLanguage ["INSERT INTO a VALUES (1)".toList] (.lost 3) .answered) := by
  have hc : oneStatement sampleLanguage "DELETE FROM a -- all".toList := by decide +kernel
  have hi : oneStatement sampleLanguage "INSERT INTO a VALUES (1)".toList := by decide +kernel
  refine ⟨⟨hc,by decide +kernel,fun h => ?_⟩,hi,by decide +kernel,fun h => ?_⟩
  · have hj := joins_of_reads hc (h.reads _ (mem_singleton_self _))
    revert hj
    decide +kernel
  · have ho : ∀ s ∈ ["INSERT INTO a VALUES (1)".toList], oneStatement sampleLanguage s :=
      List.forall_mem_singleton.2 hi
    have hj : ∀ s ∈ ["INSERT INTO a VALUES (1)".toList], Joins s := by decide +kernel
    have hp : Plain sampleLanguage (parts ["INSERT INTO a VALUES (1)".toList]) := by decide +kernel
    rcases not_commitLost_of_sound ho hj hp h with hn | hl
    · revert hn
      decide +kernel
    · exact hl ⟨3,rfl,by decide +kernel,.inl rfl⟩

end Sample

end SupervisorSession
end PgBattery
