import PgBattery.FenceCoverage
import PgBattery.StateMachine
import PgBattery.TransitionSystem

/-! Reverse capture: before a recipient takes write authority its server is given a publication and a
logical slot, and a log entry then lifts the fence. -/
namespace PgBattery
namespace ReverseCapture
open Privileges SqlReply FenceCoverage StateMachine TransitionSystem List

structure Publication where
  name : Name
  allTables : Bool := false
  schemas : List Name := []
  tables : List (Name × Name) := []
  deriving DecidableEq

def Publication.covers (p : Publication) (t : Name × Name) : Bool :=
  p.allTables || t.1 ∈ p.schemas || t ∈ p.tables

/-- A row of `pg_replication_slots`. `early` tells that no client write had been accepted yet when it
was created. -/
structure Slot where
  name : Name
  logical : Bool := true
  plugin : Name
  database : Name
  invalidated : Bool := false
  early : Bool := true
  deriving DecidableEq

structure Server where
  schemas : List Name
  tables : List (Name × Name)
  publications : List Publication := []
  slots : List Slot := []
  schema_mem : ∀ t ∈ tables, t.1 ∈ schemas

def pgoutput : Name := "pgoutput".toList

/-- What is outside the source: the migrated database's name and PostgreSQL's reserved words. -/
structure Deployment where
  database : Name
  reserved : Name → Bool
  clusterId : String

variable (d : Deployment)

def Slot.usable (s : Slot) : Bool :=
  s.logical && s.plugin = pgoutput && s.database = d.database && !s.invalidated && s.early

def Server.userTables (s : Server) : List (Name × Name) := s.tables.filter fun t => userSchema t.1

/-- The server captures what clients write: a usable slot, and a publication of every user table. -/
def Captured (s : Server) : Prop :=
  (∃ slot ∈ s.slots, slot.usable d = true) ∧
    ∃ p ∈ s.publications, ∀ t ∈ s.userTables, p.covers t = true

section Ensure

/-- `quote_ident`. -/
def simpleIdentifier (name : Name) : Bool :=
  name ≠ [] && name.all fun c => c.isAlphanum || c = '_' || c = '-'

def foldCase (name : Name) : Name := name.map Char.toLower

/-- What PostgreSQL reads an identifier without quotes as. -/
def unquoted (name : Name) : Option Name :=
  match name with
  | [] => none
  | first::rest =>
    if (first.isAlpha || first = '_') && rest.all (fun c => c.isAlphanum || c = '_') &&
      !d.reserved (foldCase name) then some (foldCase name) else none

/-- `CREATE PUBLICATION name FOR TABLES IN SCHEMA ...`, as the server takes it. -/
def createPublication (inRecovery : Bool) (s : Server) (publication : Name) (schemas : List Name) :
    Option Server :=
  match unquoted d publication with
  | none => none
  | some name =>
    if inRecovery || schemas = [] || s.publications.any (fun p => p.name = name) ||
      !schemas.all (· ∈ s.schemas) then none
    else some {s with publications := ⟨name,false,schemas,[]⟩::s.publications}

def slotName (name : Name) : Bool := name ≠ [] && name.all fun c => c.isLower || c.isDigit || c = '_'

/-- `reverse_slot_sql`. -/
def createSlot (early : Bool) (s : Server) (slot : Name) : Option Server :=
  if s.slots.any fun r => r.name = slot then some s
  else if slotName slot then
    some {s with slots := ⟨slot,true,pgoutput,d.database,false,early⟩::s.slots}
  else none

/-- `DONOR_USER_SCHEMAS_SQL`, and the reading of its reply. -/
def userSchemaLines (s : Server) : List Name := sqlLines (render (s.schemas.filter userSchemas))

def ensurePublication (inRecovery : Bool) (s : Server) (publication : Name) : Option Server :=
  if s.publications.countP (fun p => p.name = publication) = 0 then
    createPublication d inRecovery s publication (userSchemaLines s)
  else some s

def ensureReverseReplication (inRecovery early : Bool) (s : Server) (publication slot : Name) :
    Server × Bool :=
  if !simpleIdentifier publication || !simpleIdentifier slot then (s,false)
  else match ensurePublication d inRecovery s publication with
    | none => (s,false)
    | some s₁ => match createSlot d early s₁ slot with
      | none => (s₁,false)
      | some s₂ => (s₂,s₂.slots.countP (fun r => r.name = slot && r.logical) = 1)

variable {d} {inRecovery early : Bool} {s s' s₁ s₂ : Server} {publication slot : Name}

theorem ensure_ok (h : ensureReverseReplication d inRecovery early s publication slot = (s',true)) :
    simpleIdentifier publication ∧ simpleIdentifier slot ∧
    ∃ s₁, ensurePublication d inRecovery s publication = some s₁ ∧ createSlot d early s₁ slot = some s' ∧
      s'.slots.countP (fun r => r.name = slot && r.logical) = 1 := by
  rw [ensureReverseReplication] at h
  split at h
  · cases h
  · next hn =>
    simp only [Bool.or_eq_true,Bool.not_eq_true',not_or,Bool.not_eq_false] at hn
    split at h
    · cases h
    · next s₁ hs₁ =>
      split at h
      · cases h
      · next s₂ hs₂ =>
        rw [Prod.mk.injEq] at h
        obtain ⟨rfl,hc⟩ := h
        exact ⟨hn.1,hn.2,s₁,hs₁,hs₂,of_decide_eq_true hc⟩

theorem createSlot_cases (h : createSlot d early s slot = some s') :
    (s.slots.any (fun r => r.name = slot) ∧ s' = s) ∨
    (s.slots.any (fun r => r.name = slot) = false ∧
      s' = {s with slots := ⟨slot,true,pgoutput,d.database,false,early⟩::s.slots}) := by
  rw [createSlot] at h
  split at h
  · next ha =>
    cases h
    exact .inl ⟨ha,rfl⟩
  · next ha =>
    obtain ⟨_,⟨⟩⟩ := Option.ite_none_right_eq_some.1 h
    exact .inr ⟨Bool.eq_false_iff.2 ha,rfl⟩

theorem ensurePublication_cases (h : ensurePublication d inRecovery s publication = some s') :
    (s.publications.any (fun p => p.name = publication) ∧ s' = s) ∨
    (s.publications.any (fun p => p.name = publication) = false ∧
      s.publications.any (fun p => p.name = foldCase publication) = false ∧
      s' = {s with publications := ⟨foldCase publication,false,userSchemaLines s,[]⟩::s.publications}) := by
  rw [ensurePublication] at h
  split at h
  · next hc =>
    have hno : s.publications.any (fun p => p.name = publication) = false := by
      rw [any_eq_false]
      exact fun p hp => countP_eq_zero.1 hc p hp
    rw [createPublication] at h
    split at h
    · cases h
    · next name hn =>
      have hf : name = foldCase publication := by
        cases publication with
        | nil => cases hn
        | cons first rest =>
          obtain ⟨_,⟨⟩⟩ := Option.ite_none_right_eq_some.1 hn
          rfl
      subst hf
      obtain ⟨hcl,⟨⟩⟩ := Option.ite_none_left_eq_some.1 h
      simp only [Bool.or_eq_true,not_or,Bool.not_eq_true] at hcl
      exact .inr ⟨hno,hcl.1.2,rfl⟩
  · next hc =>
    cases h
    obtain ⟨p,hp,hn⟩ := List.countP_pos_iff.1 (Nat.pos_of_ne_zero hc)
    exact .inl ⟨any_eq_true.2 ⟨p,hp,hn⟩,rfl⟩

theorem createSlot_publications (h : createSlot d early s slot = some s') :
    s'.publications = s.publications ∧ s'.userTables = s.userTables := by
  rcases createSlot_cases h with ⟨-,rfl⟩ | ⟨-,rfl⟩
  · exact ⟨rfl,rfl⟩
  · exact ⟨rfl,rfl⟩

theorem any_slot_of_createSlot (h : createSlot d early s slot = some s') :
    s'.slots.any (fun r => r.name = slot) := by
  rcases createSlot_cases h with ⟨ha,rfl⟩ | ⟨-,rfl⟩
  · exact ha
  · exact any_eq_true.2 ⟨_,mem_cons_self,decide_eq_true rfl⟩

/-- A second call goes as the first only if the publication has, letter for letter, the name asked
for: `CREATE PUBLICATION` folds it to lower case. -/
theorem ensure_again_iff (h : ensureReverseReplication d inRecovery early s publication slot = (s',true))
    (inRecovery' early' : Bool) :
    ensureReverseReplication d inRecovery' early' s' publication slot = (s',true) ↔
      s.publications.any (fun p => p.name = publication) ∨ foldCase publication = publication := by
  obtain ⟨hpu,hs,s₁,hs₁,hs',hco⟩ := ensure_ok h
  have hpb := (createSlot_publications hs').1
  have hna : (!simpleIdentifier publication || !simpleIdentifier slot) = false := by
    rw [hpu,hs]
    rfl
  constructor
  · intro hag
    obtain ⟨-,-,t₁,ht₁,-,-⟩ := ensure_ok hag
    rcases ensurePublication_cases hs₁ with ⟨ha,-⟩ | ⟨hno,-,rfl⟩
    · exact .inl ha
    · right
      by_contra hf
      -- the name asked for is still missing, and the folded one is taken
      have ht : s'.publications.any (fun p => p.name = foldCase publication) := by
        rw [hpb]
        exact any_eq_true.2 ⟨_,mem_cons_self,decide_eq_true rfl⟩
      rcases ensurePublication_cases ht₁ with ⟨ha,-⟩ | ⟨-,hfr,-⟩
      · rw [hpb,any_cons,hno,Bool.or_false] at ha
        exact hf (of_decide_eq_true ha)
      · rw [ht] at hfr
        cases hfr
  · intro hn
    have ha : s'.publications.any (fun p => p.name = publication) := by
      rw [hpb]
      rcases ensurePublication_cases hs₁ with ⟨ha,rfl⟩ | ⟨hno,-,rfl⟩
      · exact ha
      · rcases hn with hn | hf
        · rw [hno] at hn
          cases hn
        · exact any_eq_true.2 ⟨_,mem_cons_self,decide_eq_true hf⟩
    have hpub : ensurePublication d inRecovery' s' publication = some s' := by
      obtain ⟨p,hp,hpn⟩ := any_eq_true.1 ha
      rw [ensurePublication,if_neg]
      exact (List.countP_pos_iff.2 ⟨p,hp,hpn⟩).ne'
    have hc : createSlot d early' s' slot = some s' := by
      rw [createSlot,if_pos (any_slot_of_createSlot hs')]
    rw [ensureReverseReplication,hna,if_neg Bool.false_ne_true,hpub]
    dsimp only
    rw [hc]
    dsimp only
    rw [hco]
    rfl

/-- What the requested names stand for on the server before the call: a usable slot or none, and a
publication of every user table or none; what is created then comes before any client write and finds
every user schema in the listing. -/
structure Fit (d : Deployment) (wrote : Bool) (s : Server) (publication slot : Name) : Prop where
  slots : ∀ r ∈ s.slots, r.name = slot → r.usable d = true
  early : s.slots.any (fun r => r.name = slot) = false → wrote = false
  publications : ∀ p ∈ s.publications, p.name = publication → ∀ t ∈ s.userTables, p.covers t = true
  schemas : s.publications.any (fun p => p.name = publication) = false → ∀ t ∈ s.userTables,
    userSchemas t.1 = true ∧ '\n' ∉ t.1 ∧ trim t.1 = t.1 ∧ t.1 ≠ []

theorem captured_of_ensure {wrote : Bool} (hf : Fit d wrote s publication slot)
    (h : ensureReverseReplication d inRecovery (!wrote) s publication slot = (s',true)) :
    Captured d s' := by
  obtain ⟨-,-,s₁,hs₁,hs',-⟩ := ensure_ok h
  have hs : s₁.slots = s.slots := by
    rcases ensurePublication_cases hs₁ with ⟨-,rfl⟩ | ⟨-,-,rfl⟩
    · rfl
    · rfl
  obtain ⟨hpu,hta⟩ := createSlot_publications hs'
  constructor
  · rcases createSlot_cases hs' with ⟨ha,rfl⟩ | ⟨hn,rfl⟩
    · obtain ⟨r,hr,hna⟩ := any_eq_true.1 ha
      exact ⟨r,hr,hf.slots r (hs ▸ hr) (of_decide_eq_true hna)⟩
    · refine ⟨_,mem_cons_self,?_⟩
      rw [hs] at hn
      simp [Slot.usable,hf.early hn]
  · rw [hpu,hta]
    rcases ensurePublication_cases hs₁ with ⟨ha,rfl⟩ | ⟨hn,-,rfl⟩
    · obtain ⟨p,hp,hna⟩ := any_eq_true.1 ha
      exact ⟨p,hp,hf.publications p hp (of_decide_eq_true hna)⟩
    · refine ⟨_,mem_cons_self,fun t ht => ?_⟩
      obtain ⟨hc,hli,htr,hne⟩ := hf.schemas hn t ht
      have hsc := s.schema_mem t (mem_of_mem_filter ht)
      have hl : t.1 ∈ userSchemaLines s :=
        mem_sqlLines (mem_filter.2 ⟨hsc,hc⟩) hli htr hne
      simp [Publication.covers,hl]

theorem captured_ensure (h : Captured d s) (inRecovery early : Bool) (publication slot : Name) :
    Captured d (ensureReverseReplication d inRecovery early s publication slot).1 := by
  have hpu : ∀ s₁, ensurePublication d inRecovery s publication = some s₁ → Captured d s₁ := by
    intro s₁ hs₁
    rcases ensurePublication_cases hs₁ with ⟨-,rfl⟩ | ⟨-,-,rfl⟩
    · exact h
    · obtain ⟨hs,p,hp,hc⟩ := h
      exact ⟨hs,p,mem_cons_of_mem _ hp,hc⟩
  rw [ensureReverseReplication]
  split
  · exact h
  · split
    · exact h
    · next s₁ hs₁ =>
      have h₁ := hpu s₁ hs₁
      split
      · exact h₁
      · next s₂ hs₂ =>
        rcases createSlot_cases hs₂ with ⟨-,rfl⟩ | ⟨-,rfl⟩
        · exact h₁
        · obtain ⟨⟨r,hr,hu⟩,hpb⟩ := h₁
          exact ⟨⟨r,mem_cons_of_mem _ hr,hu⟩,hpb⟩

end Ensure

structure Request where
  node : NodeId
  publication : Name
  slot : Name
  epoch : U64
  fromClusterId : String
  deriving DecidableEq

structure World where
  servers : NodeId → Server
  primary : NodeId
  record : CutoverAuthorityState := {}
  /-- Whether a client write has been accepted. -/
  wrote : Bool := false
  /-- The requests whose entry is on its way. -/
  pending : List Request := []

inductive Event
  | server (node : NodeId) (s : Server)
  | failover (node : NodeId)
  | ensure (request : Request) (sequencesPast : Bool)
  | commit (request : Request)
  | command (cmd : ClusterCommand)
  | write

/-- What the call does to its node's server; only the primary takes DDL. -/
def World.ensure (w : World) (r : Request) : Server × Bool :=
  ensureReverseReplication d (r.node ≠ w.primary) (!w.wrote) (w.servers r.node) r.publication r.slot

def World.receive (w : World) (r : Request) : CutoverAuthorityState × CommandOutcome :=
  w.record.applyCutover (.cutoverAuthorityReceived r.epoch r.fromClusterId d.clusterId)

def receives : ClusterCommand → Bool
  | .cutoverAuthorityReceived .. => true
  | _ => false

def step (w : World) : Event → Option World
  | .server node s => some {w with servers := Function.update w.servers node s}
  | .failover node => some {w with primary := node}
  | .ensure r sequencesPast => some {w with
      servers := Function.update w.servers r.node (w.ensure d r).1,
      pending := if (w.ensure d r).2 && sequencesPast then r::w.pending else w.pending}
  | .commit r =>
    if r ∈ w.pending then
      some {w with record := (w.receive d r).1, pending := w.pending.erase r}
    else none
  | .command cmd =>
    if receives cmd then none else some {w with record := (w.record.applyCutover cmd).1}
  | .write => if w.record.holdsClientWriteAuthority d.clusterId then some {w with wrote := true} else none

def safe (w : World) : Event → Prop
  | .commit r => r ∈ w.pending → (w.receive d r).2 = .applied → Captured d (w.servers w.primary)
  | _ => True

/-- The names are fit on the node of the call, nothing takes its capture away while the entry is on its
way, and the node is the primary when the entry applies. -/
def meets (w : World) : Event → Prop
  | .ensure r _ => Fit d w.wrote (w.servers r.node) r.publication r.slot
  | .server node s => ∀ r ∈ w.pending, r.node = node → Captured d s
  | .commit r => r.node = w.primary
  | _ => True

def Inv (w : World) : Prop := ∀ r ∈ w.pending, Captured d (w.servers r.node)

variable {d} {w w' : World} {e : Event}

theorem inv_step (h : Inv d w) (hm : meets d w e) (hs : step d w e = some w') : Inv d w' := by
  revert hs
  fun_cases step d w e <;> intro hs <;> cases hs
  · next node s =>
    intro r hr
    by_cases hn : r.node = node
    · dsimp only
      rw [hn,Function.update_self]
      exact hm r hr hn
    · dsimp only
      rw [Function.update_of_ne hn]
      exact h r hr
  · exact h
  · next request _ =>
    intro r hr
    by_cases hn : r.node = request.node
    · dsimp only
      rw [hn,Function.update_self]
      by_cases hok : (w.ensure d request).2
      · exact captured_of_ensure hm (Prod.ext rfl hok)
      · simp only [hok,Bool.false_and] at hr
        exact captured_ensure (hn ▸ h r hr) _ _ _ _
    · dsimp only at hr ⊢
      rw [Function.update_of_ne hn]
      split at hr
      · rcases mem_cons.1 hr with rfl | hr
        · exact absurd rfl hn
        · exact h r hr
      · exact h r hr
  · exact fun r hr => h r (mem_of_mem_erase hr)
  · exact h
  · exact h

theorem safe_of_meets (h : Inv d w) (hm : meets d w e) : safe d w e := by
  cases e with
  | commit r =>
    intro hr _
    change r.node = w.primary at hm
    rw [← hm]
    exact h r hr
  | _ => trivial

/-- Calls whose names are fit, on a node that stays the primary and keeps what they made, capture what
clients write; and a call can be repeated exactly when the publication has the very name asked for. -/
theorem reverse_capture (d : Deployment) (servers : NodeId → Server) (primary : NodeId)
    (record : CutoverAuthorityState) (events : List Event)
    (hmeets : Guarded (step d) (meets d) {servers, primary, record} events) :
    Guarded (step d) (safe d) {servers, primary, record} events ∧
    ∀ inRecovery early s publication slot s',
      ensureReverseReplication d inRecovery early s publication slot = (s',true) →
      ∀ inRecovery' early', ensureReverseReplication d inRecovery' early' s' publication slot = (s',true) ↔
        s.publications.any (fun p => p.name = publication) = true ∨ foldCase publication = publication := by
  refine ⟨?_,fun _ _ _ _ _ _ h => ensure_again_iff h⟩
  refine hmeets.imp (fun _ _ _ hi hg hs => inv_step hi hg hs) (fun _ _ hi hg => safe_of_meets hi hg) ?_
  exact fun r hr => absurd hr not_mem_nil

section Runs

def migrated : Deployment := ⟨"app".toList,fun _ => false,"green"⟩

def reverse : Name := "pgbattery_reverse".toList

def ordersTable : Name × Name := (publicSchema,"orders".toList)

def recipient (publications : List Publication) (slots : List Slot) : Server :=
  ⟨[publicSchema],[ordersTable],publications,slots,by decide⟩

def call (publication : Name) : Request := ⟨1,publication,reverse,1,"blue"⟩

instance instDecidableCaptured (d : Deployment) (s : Server) : Decidable (Captured d s) :=
  inferInstanceAs (Decidable ((∃ slot ∈ s.slots, slot.usable d = true) ∧
    ∃ p ∈ s.publications, ∀ t ∈ s.userTables, p.covers t = true))

instance instDecidableFit (d : Deployment) (wrote : Bool) (s : Server) (publication slot : Name) :
    Decidable (Fit d wrote s publication slot) :=
  decidable_of_iff
    ((∀ r ∈ s.slots, r.name = slot → r.usable d = true) ∧
      (s.slots.any (fun r => r.name = slot) = false → wrote = false) ∧
      (∀ p ∈ s.publications, p.name = publication → ∀ t ∈ s.userTables, p.covers t = true) ∧
      (s.publications.any (fun p => p.name = publication) = false → ∀ t ∈ s.userTables,
        userSchemas t.1 = true ∧ '\n' ∉ t.1 ∧ trim t.1 = t.1 ∧ t.1 ≠ []))
    ⟨fun h => ⟨h.1,h.2.1,h.2.2.1,h.2.2.2⟩,fun h => ⟨h.1,h.2,h.3,h.4⟩⟩

instance instDecidableMeets (d : Deployment) (w : World) (e : Event) : Decidable (meets d w e) := by
  unfold meets
  split <;> infer_instance

def freshRun : List Event := [.ensure (call reverse) true,.commit (call reverse),.write]

theorem reverse_capture_fresh :
    (run (step migrated) {servers := fun _ => recipient [] [], primary := 1} freshRun).any
      (fun w => w.wrote && decide (Captured migrated (w.servers w.primary))) = true ∧
    Guarded (step migrated) (safe migrated) {servers := fun _ => recipient [] [], primary := 1}
      freshRun := by
  have hm : Guarded (step migrated) (meets migrated)
      {servers := fun _ => recipient [] [], primary := 1} freshRun := by decide +kernel
  exact ⟨by decide +kernel,(reverse_capture migrated _ 1 {} freshRun hm).1⟩

structure Case where
  server : Server
  events : List Event

def uncaptured : List Case := [
  ⟨recipient [] [⟨reverse,true,pgoutput,"audit".toList,false,true⟩],[.ensure (call reverse) true]⟩,
  ⟨recipient [] [⟨reverse,true,"wal2json".toList,"app".toList,false,true⟩],[.ensure (call reverse) true]⟩,
  ⟨recipient [] [⟨reverse,true,pgoutput,"app".toList,true,true⟩],[.ensure (call reverse) true]⟩,
  ⟨recipient [⟨reverse,false,[],[(publicSchema,"audit".toList)]⟩] [],[.ensure (call reverse) true]⟩,
  ⟨⟨[publicSchema,"pgxtemp".toList],[("pgxtemp".toList,"orders".toList)],[],[],by decide⟩,
    [.ensure (call reverse) true]⟩,
  ⟨recipient [] [],[.ensure (call reverse) true,.failover 2]⟩]

def missed (w : World) : Bool :=
  w.pending.contains (call reverse) && (w.receive migrated (call reverse)).2 = .applied &&
    !decide (Captured migrated (w.servers w.primary))

theorem not_safe_of_missed (h : missed w) : ¬safe migrated w (.commit (call reverse)) := by
  simp only [missed,Bool.and_eq_true,decide_eq_true_eq,Bool.not_eq_true',decide_eq_false_iff_not] at h
  obtain ⟨⟨hp,ha⟩,hm⟩ := h
  exact fun hs => hm (hs (List.contains_iff_mem.1 hp) ha)

theorem reverse_capture_missed :
    (uncaptured ≠ [] ∧ ∀ c ∈ uncaptured, ∃ w,
      run (step migrated) {servers := fun _ => c.server, primary := 1} c.events = some w ∧
      ¬safe migrated w (.commit (call reverse))) ∧
    ∃ s', ensureReverseReplication migrated false true (recipient [] []) "Reverse".toList reverse =
        (s',true) ∧
      (ensureReverseReplication migrated false true s' "Reverse".toList reverse).2 = false := by
  have hr : uncaptured.all (fun c => (run (step migrated)
      {servers := fun _ => c.server, primary := 1} c.events).any missed) := by decide +kernel
  refine ⟨⟨cons_ne_nil _ _,fun c hc => ?_⟩,_,Prod.ext rfl ?_,?_⟩
  · obtain ⟨w,hw,hm⟩ := (Option.any_eq_true _ _).1 (all_eq_true.1 hr c hc)
    exact ⟨w,hw,not_safe_of_missed hm⟩
  · decide +kernel
  · decide +kernel

end Runs
end ReverseCapture
end PgBattery
