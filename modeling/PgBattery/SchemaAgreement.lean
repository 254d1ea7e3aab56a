import PgBattery.FenceCoverage
import PgBattery.StateMachine
import PgBattery.TransitionSystem

/-! The schema comparison of a blue/green cutover: a digest of each cluster's user tables, read once
before the donor is armed, and DDL on both clusters while the run goes on. -/
namespace PgBattery
namespace SchemaAgreement
open Privileges SqlReply FenceCoverage StateMachine TransitionSystem List

structure ColumnType where
  schema : Name
  name : Name
  modifier : Option ℕ := none
  deriving DecidableEq

structure Column where
  name : Name
  type : ColumnType
  notNull : Bool := false
  deriving DecidableEq

structure Table where
  schema : Name
  name : Name
  columns : List Column
  deriving DecidableEq

def Table.key (t : Table) : Name × Name := (t.schema,t.name)

structure Database where
  tables : List Table
  unique : (tables.map Table.key).Nodup
  deriving DecidableEq

/-- The two databases have the same user tables. -/
def Agree (d r : Database) : Prop :=
  ∀ t : Table, userSchema t.schema = true → (t ∈ d.tables ↔ t ∈ r.tables)

section Digest

def decimal (n : ℕ) : Text := (Nat.digits 10 n).reverse.map hexDigit

/-- One row `sig` of `SCHEMA_DIGEST_SQL`. -/
def signature (t : Table) (position : ℕ) (c : Column) : Text :=
  t.schema++ '.'::(t.name++ ':'::(decimal position++ ':'::(c.name++ ':'::(c.type.name++ ':'::
    boolText c.notNull))))

def signatures (d : Database) : List Text :=
  (d.tables.filter fun t => userSchemas t.schema).flatMap fun t =>
    t.columns.zipIdx.map fun c => signature t (c.2+1) c.1

/-- `md5` as a function that tells all texts apart and prints no blanks around its digits. -/
structure Md5 where
  hash : Text → Text
  injective : Function.Injective hash
  trimmed : ∀ text, trim (hash text) = hash text

/-- The order in which a server's collation puts the rows. -/
structure Collation where
  order : List Text → List Text
  perm : ∀ rows, (order rows).Perm rows

/-- `schema_digest`. -/
def schemaDigest (md5 : Md5) (collation : Collation) (d : Database) : Text :=
  match collation.order (signatures d) with
  | [] => trim []
  | rows => trim (md5.hash (render rows))

def schemaDigestsAgree (donor recipient : Text) : Bool :=
  trim donor ≠ [] && trim donor = trim recipient

variable {t t' : Table} {i j : ℕ} {c c' : Column}

variable {d r : Database} {collation blue green : Collation}

theorem mem_signatures {s : Text} : s ∈ signatures d ↔
    ∃ t ∈ d.tables, userSchemas t.schema ∧ ∃ i c, t.columns[i]? = some c ∧
      s = signature t (i+1) c := by
  simp only [signatures,mem_flatMap,mem_filter,mem_map,Prod.exists,
    List.mem_zipIdx_iff_getElem?,and_assoc]
  constructor
  · rintro ⟨t,ht,hs,c,i,hc,rfl⟩
    exact ⟨t,ht,hs,i,c,hc,rfl⟩
  · rintro ⟨t,ht,hs,i,c,hc,rfl⟩
    exact ⟨t,ht,hs,c,i,hc,rfl⟩

theorem append_separator_inj {sep : Char} {s s' u u' : Text} (hs : sep ∉ s) (hs' : sep ∉ s')
    (h : s++sep::u = s'++sep::u') : s = s' ∧ u = u' := by
  have hsp := congrArg (splitOnce sep) h
  rw [splitOnce_append hs,splitOnce_append hs',Option.some.injEq,Prod.mk.injEq] at hsp
  exact hsp

theorem separator_append_inj {sep : Char} {s s' u u' : Text} (hu : sep ∉ u) (hu' : sep ∉ u')
    (h : s++sep::u = s'++sep::u') : s = s' ∧ u = u' := by
  have hr := congrArg List.reverse h
  simp only [reverse_append,reverse_cons,append_assoc,singleton_append] at hr
  obtain ⟨hu,hs⟩ := append_separator_inj (mt List.mem_reverse.1 hu) (mt List.mem_reverse.1 hu') hr
  exact ⟨reverse_injective hs,reverse_injective hu⟩

theorem exists_hexDigit_of_mem_decimal {n : ℕ} {ch : Char} (h : ch ∈ decimal n) :
    ∃ d < 10, ch = hexDigit d := by
  obtain ⟨d,hd,rfl⟩ := mem_map.1 h
  exact ⟨d,Nat.digits_lt_base (by decide) (List.mem_reverse.1 hd),rfl⟩

theorem plain_of_mem_decimal {n : ℕ} {ch : Char} (h : ch ∈ decimal n) : ch ≠ ':' ∧ ch ≠ '\n' := by
  obtain ⟨d,hd,rfl⟩ := exists_hexDigit_of_mem_decimal h
  interval_cases d <;> decide

theorem decimal_injective : Function.Injective decimal := by
  have hre : ∀ n, (decimal n).map hexValue = (Nat.digits 10 n).reverse.map some := by
    intro n
    rw [decimal,map_map]
    refine map_congr_left fun d hd => hexValue_hexDigit ?_
    exact (Nat.digits_lt_base (by decide) (List.mem_reverse.1 hd)).trans (by decide)
  intro m n h
  have hdi := congrArg (List.map hexValue) h
  rw [hre,hre] at hdi
  have hr := List.map_injective_iff.2 (Option.some_injective _) hdi
  exact Nat.digits_inj_iff.1 (reverse_injective hr)

/-- Names that the separators of a signature do not occur in. -/
structure Table.Plain (t : Table) : Prop where
  schema : '.' ∉ t.schema ∧ '\n' ∉ t.schema
  name : ':' ∉ t.name ∧ '\n' ∉ t.name
  columns : ∀ c ∈ t.columns, (':' ∉ c.name ∧ '\n' ∉ c.name) ∧ '\n' ∉ c.type.name
  nonempty : t.columns ≠ []

/-- A database whose digest describes it: plain names, no table without columns, and no user schema
that a pattern of the query leaves out. -/
structure Database.Plain (d : Database) : Prop where
  tables : ∀ t ∈ d.tables, userSchemas t.schema = true → t.Plain
  covered : ∀ t ∈ d.tables, userSchema t.schema = true → userSchemas t.schema = true

/-- Columns of one name at one place of one table have the same type where their types have one name. -/
def SameTypes (d r : Database) : Prop :=
  ∀ t ∈ d.tables, ∀ t' ∈ r.tables, t.key = t'.key → ∀ p ∈ t.columns.zip t'.columns,
    p.1.name = p.2.name → p.1.type.name = p.2.type.name → p.1.type = p.2.type

theorem colon_notMem_boolText (b : Bool) : ':' ∉ boolText b := by
  cases b <;> decide

theorem signature_inj (ht : t.Plain) (ht' : t'.Plain) (hc : c ∈ t.columns) (hc' : c' ∈ t'.columns)
    (h : signature t i c = signature t' j c') :
    t.key = t'.key ∧ i = j ∧ c.name = c'.name ∧ c.type.name = c'.type.name ∧ c.notNull = c'.notNull := by
  obtain ⟨hs,h⟩ := append_separator_inj ht.schema.1 ht'.schema.1 h
  obtain ⟨hn,h⟩ := append_separator_inj ht.name.1 ht'.name.1 h
  have hp : ∀ n, ':' ∉ decimal n := fun n hm => (plain_of_mem_decimal hm).1 rfl
  obtain ⟨hi,h⟩ := append_separator_inj (hp i) (hp j) h
  obtain ⟨hco,h⟩ := append_separator_inj (ht.columns c hc).1.1 (ht'.columns c' hc').1.1 h
  obtain ⟨hty,hnu⟩ := separator_append_inj (colon_notMem_boolText _) (colon_notMem_boolText _) h
  refine ⟨Prod.ext hs hn,decimal_injective hi,hco,hty,?_⟩
  have hr := congrArg parsePgBool hnu
  rw [parsePgBool_boolText,parsePgBool_boolText] at hr
  exact Except.ok.inj hr

theorem newline_notMem_signature (ht : t.Plain) (hc : c ∈ t.columns) : '\n' ∉ signature t i c := by
  intro h
  have hb : '\n' ∉ boolText c.notNull := by
    cases c.notNull <;> decide
  have hp : '\n' ∉ decimal i := fun hm => (plain_of_mem_decimal hm).2 rfl
  have hco := ht.columns c hc
  simp only [signature,mem_append,mem_cons] at h
  simp [ht.schema.2,ht.name.2,hp,hco.1.2,hco.2,hb] at h

theorem newline_notMem_of_mem (hd : d.Plain) {s : Text} (h : s ∈ signatures d) : '\n' ∉ s := by
  obtain ⟨t,ht,hs,i,c,hc,rfl⟩ := mem_signatures.1 h
  exact newline_notMem_signature (hd.tables t ht hs) (mem_of_getElem? hc)

theorem schemaDigest_nil {md5 : Md5} (h : collation.order (signatures d) = []) :
    schemaDigest md5 collation d = [] := by
  rw [schemaDigest,h]
  rfl

theorem schemaDigest_cons {md5 : Md5} {a : Text} {rows : List Text}
    (h : collation.order (signatures d) = a::rows) :
    schemaDigest md5 collation d = md5.hash (render (a::rows)) := by
  rw [schemaDigest,h]
  exact md5.trimmed _

theorem mem_signatures_iff {md5 : Md5} (hd : d.Plain) (hr : r.Plain)
    (h : schemaDigestsAgree (schemaDigest md5 blue d) (schemaDigest md5 green r)) (s : Text) :
    s ∈ signatures d ↔ s ∈ signatures r := by
  have hpe := (blue.perm (signatures d)).mem_iff (a := s)
  have hpe' := (green.perm (signatures r)).mem_iff (a := s)
  have hp : ∀ row ∈ blue.order (signatures d), '\n' ∉ row :=
    fun row hrw => newline_notMem_of_mem hd ((blue.perm _).mem_iff.1 hrw)
  have hp' : ∀ row ∈ green.order (signatures r), '\n' ∉ row :=
    fun row hrw => newline_notMem_of_mem hr ((green.perm _).mem_iff.1 hrw)
  rw [← hpe,← hpe']
  simp only [schemaDigestsAgree,Bool.and_eq_true,decide_eq_true_eq] at h
  obtain ⟨hs,hsa⟩ := h
  cases hro : blue.order (signatures d) with
  | nil =>
    rw [schemaDigest_nil hro] at hs
    exact absurd rfl hs
  | cons a rows =>
    cases hr' : green.order (signatures r) with
    | nil =>
      rw [hsa,schemaDigest_nil hr'] at hs
      exact absurd rfl hs
    | cons b rows' =>
      rw [schemaDigest_cons hro,schemaDigest_cons hr',md5.trimmed,md5.trimmed] at hsa
      rw [hro] at hp
      rw [hr'] at hp'
      have ht := congrArg lines (md5.injective hsa)
      rw [lines_render (cons_ne_nil a rows) hp,
        lines_render (cons_ne_nil b rows') hp'] at ht
      rw [ht]

theorem eq_of_key (ht : t ∈ d.tables) (ht' : t' ∈ d.tables) (h : t.key = t'.key) : t = t' :=
  inj_on_of_nodup_map d.unique ht ht' h

theorem getElem?_of_mem_signatures {d r : Database} (hd : d.Plain) (hr : r.Plain) (hty : SameTypes d r)
    (hro : ∀ s ∈ signatures d, s ∈ signatures r) (ht : t ∈ d.tables) (hs : userSchemas t.schema)
    (hc : t.columns[i]? = some c) :
    ∃ t' ∈ r.tables, userSchemas t'.schema ∧ t.key = t'.key ∧ t'.columns[i]? = some c := by
  have hm := mem_signatures.2 ⟨t,ht,hs,i,c,hc,rfl⟩
  obtain ⟨t',ht',hs',j,c',hc',heq⟩ := mem_signatures.1 (hro _ hm)
  have hco := mem_of_getElem? hc
  have hco' := mem_of_getElem? hc'
  obtain ⟨hk,hp,hn,htp,hnu⟩ :=
    signature_inj (hd.tables t ht hs) (hr.tables t' ht' hs') hco hco' heq
  obtain rfl : i = j := Nat.succ.inj hp
  have hcc : c = c' := by
    have hzi : (t.columns.zip t'.columns)[i]? = some (c,c') := getElem?_zip_eq_some.2 ⟨hc,hc'⟩
    have hsa := hty t ht t' ht' hk _ (mem_of_getElem? hzi) hn htp
    rcases c with ⟨n,ty,nn⟩
    rcases c' with ⟨n',ty',nn'⟩
    simp only [Column.mk.injEq]
    exact ⟨hn,hsa,hnu⟩
  subst hcc
  exact ⟨t',ht',hs',hk,hc'⟩

theorem mem_of_signatures (hd : d.Plain) (hr : r.Plain) (hty : SameTypes d r) (hty' : SameTypes r d)
    (hro : ∀ s, s ∈ signatures d ↔ s ∈ signatures r) (ht : t ∈ d.tables) (hs : userSchemas t.schema)
    : t ∈ r.tables := by
  have hf := fun {i c} => getElem?_of_mem_signatures (i := i) (c := c) hd hr hty
    (fun s => (hro s).1) ht hs
  obtain ⟨first,hfi⟩ := exists_mem_of_ne_nil _ (hd.tables t ht hs).nonempty
  obtain ⟨k,hk⟩ := mem_iff_getElem?.1 hfi
  obtain ⟨t',ht',hs',hke,-⟩ := hf hk
  have hco : t.columns = t'.columns := by
    refine ext_getElem? fun i => ?_
    cases hc : t.columns[i]? with
    | some c =>
      obtain ⟨u,hu,-,huk,huc⟩ := hf hc
      obtain rfl := eq_of_key hu ht' (huk.symm.trans hke)
      exact huc.symm
    | none =>
      cases hc' : t'.columns[i]? with
      | none => rfl
      | some c =>
        obtain ⟨u,hu,-,huk,huc⟩ := getElem?_of_mem_signatures hr hd hty'
          (fun s => (hro s).2) ht' hs' hc'
        obtain rfl := eq_of_key hu ht (huk.symm.trans hke.symm)
        rw [hc] at huc
        cases huc
  have heq : t = t' := by
    rcases t with ⟨schema,name,columns⟩
    rcases t' with ⟨schema',name',columns'⟩
    simp only [Table.key,Prod.mk.injEq] at hke
    simp only [Table.mk.injEq]
    exact ⟨hke.1,hke.2,hco⟩
  rwa [heq]

theorem SameTypes.symm (h : SameTypes d r) : SameTypes r d := by
  intro t ht t' ht' hk p hp hn hty
  have hs : p.swap ∈ t'.columns.zip t.columns := by
    rw [← zip_swap]
    exact mem_map_of_mem hp
  exact (h t' ht' t ht hk.symm p.swap hs hn.symm hty.symm).symm

theorem agree_of_digests {md5 : Md5} (hd : d.Plain) (hr : r.Plain) (hty : SameTypes d r)
    (h : schemaDigestsAgree (schemaDigest md5 blue d) (schemaDigest md5 green r)) : Agree d r := by
  have hro := mem_signatures_iff hd hr h
  intro t hu
  constructor
  · intro ht
    exact mem_of_signatures hd hr hty hty.symm hro ht (hd.covered t ht hu)
  · intro ht
    exact mem_of_signatures hr hd hty.symm hty (fun s => (hro s).symm) ht
      (hr.covered t ht hu)

end Digest

def ddlShouldFreeze (phase : CutoverPhase) : Bool := phase ∈ [.sealing,.sealed,.draining]

inductive Stage
  | start
  | donorRead (digest : Text)
  | compared
  | armed
  | sealing
  | sealed
  | drained
  | transferring
  | failed
  deriving DecidableEq

structure Deployment where
  md5 : Md5
  blue : Collation
  green : Collation

structure World where
  donor : Database
  recipient : Database
  phase : CutoverPhase := .idle
  /-- The trigger of the DDL freeze on the donor. -/
  ddlTrigger : Bool := false
  /-- DDL on the donor that has passed `ddl_command_start`. -/
  started : ℕ := 0
  stage : Stage := .start
  /-- The tables of both clusters when the donor was sealed. -/
  atSeal : Option (Database × Database) := none

inductive Event
  -- DDL; the trigger lets a superuser's session through that marked itself exempt
  | begin (exempt : Bool)
  | donorDdl (db : Database)
  | recipientDdl (db : Database)
  | reconcile
  | readDonor
  | readRecipient
  | arm
  | sealing
  | sealed
  | drain
  | transfer
  | fail
  deriving DecidableEq

variable (p : Deployment)

def step (w : World) : Event → Option World
  | .begin exempt =>
    if w.ddlTrigger && !exempt then none else some {w with started := w.started+1}
  | .donorDdl db =>
    match w.started with
    | n+1 => some {w with donor := db, started := n}
    | 0 => none
  | .recipientDdl db => some {w with recipient := db}
  | .reconcile => some {w with ddlTrigger := ddlShouldFreeze w.phase}
  | .readDonor =>
    if w.stage = .start then
      some {w with stage := .donorRead (schemaDigest p.md5 p.blue w.donor)}
    else none
  | .readRecipient =>
    match w.stage with
    | .donorRead digest =>
      some {w with stage :=
        if schemaDigestsAgree digest (schemaDigest p.md5 p.green w.recipient) then .compared else .failed}
    | _ => none
  | .arm => if w.stage = .compared then some {w with stage := .armed, phase := .armed} else none
  | .sealing => if w.stage = .armed then some {w with stage := .sealing, phase := .sealing} else none
  | .sealed =>
    if w.stage = .sealing ∧ w.ddlTrigger then
      some {w with stage := .sealed, phase := .sealed, atSeal := some (w.donor,w.recipient)}
    else none
  | .drain => if w.stage = .sealed then some {w with stage := .drained, phase := .draining} else none
  | .transfer => if w.stage = .drained then some {w with stage := .transferring} else none
  | .fail => some {w with stage := .failed}

def Stage.compares : Stage → Bool
  | .donorRead _ | .compared | .armed | .sealing => true
  | .start | .sealed | .drained | .transferring | .failed => false

/-- DDL that commits between the digests and the seal leaves the tables alone, and the digests are read
of databases they describe. -/
def meets (w : World) : Event → Prop
  | .donorDdl db => w.stage.compares = true → db = w.donor
  | .recipientDdl db => w.stage.compares = true → db = w.recipient
  | .readRecipient => w.donor.Plain ∧ w.recipient.Plain ∧ SameTypes w.donor w.recipient
  | _ => True

def known (p : Deployment) (w : World) : Stage → Prop
  | .start | .failed => True
  | .donorRead digest => digest = schemaDigest p.md5 p.blue w.donor
  | .compared | .armed | .sealing => Agree w.donor w.recipient
  | .sealed | .drained | .transferring => ∃ d r, w.atSeal = some (d,r) ∧ Agree d r

def Inv (p : Deployment) (w : World) : Prop := known p w w.stage

variable {p} {w w' : World} {e : Event}

theorem known_congr {stage : Stage} (hd : stage.compares → w'.donor = w.donor)
    (hr : stage.compares → w'.recipient = w.recipient) (hs : w'.atSeal = w.atSeal)
    (h : known p w stage) : known p w' stage := by
  cases stage with
  | start | failed => trivial
  | donorRead digest =>
    change digest = _
    rw [hd rfl]
    exact h
  | compared | armed | sealing =>
    change Agree w'.donor w'.recipient
    rw [hd rfl,hr rfl]
    exact h
  | sealed | drained | transferring =>
    change ∃ d r, w'.atSeal = some (d,r) ∧ _
    rw [hs]
    exact h

theorem inv_step (h : Inv p w) (hm : meets w e) (hs : step p w e = some w') : Inv p w' := by
  revert hs
  fun_cases step p w e <;> intro hs <;> cases hs
  · exact known_congr (fun _ => rfl) (fun _ => rfl) rfl h
  · exact known_congr hm (fun _ => rfl) rfl h
  · exact known_congr (w := w) (fun _ => rfl) hm rfl h
  · exact known_congr (fun _ => rfl) (fun _ => rfl) rfl h
  · exact rfl
  · next digest hst =>
    rw [Inv,hst] at h
    dsimp only [Inv]
    split
    · next ha =>
      obtain ⟨hd,hr,ht⟩ := hm
      change digest = _ at h
      rw [h] at ha
      exact agree_of_digests hd hr ht ha
    · trivial
  · next hst =>
    rw [Inv,hst] at h
    exact h
  · next hst =>
    rw [Inv,hst] at h
    exact h
  · next hst =>
    rw [Inv,hst.1] at h
    exact ⟨w.donor,w.recipient,rfl,h⟩
  · next hst =>
    rw [Inv,hst] at h
    exact h
  · next hst =>
    rw [Inv,hst] at h
    exact h
  · trivial

/-- If no DDL changes the tables between the digests and the seal, and the digests describe them, a run
that reaches its transfer found both clusters with the same user tables when it sealed. -/
theorem schemas_agree_at_seal (p : Deployment) (donor recipient : Database) (events : List Event)
    (w : World) (hmeets : Guarded (step p) meets {donor, recipient} events)
    (hrun : run (step p) {donor, recipient} events = some w) (hstage : w.stage = .transferring) :
    ∃ d r, w.atSeal = some (d,r) ∧ Agree d r := by
  have hst : Inv p {donor, recipient} := trivial
  have hin : Inv p w :=
    run_invariant_guarded (fun _ _ _ hi hg hs => inv_step hi hg hs) hst hmeets hrun
  rw [Inv,hstage] at hin
  exact hin

section Runs

def bracket : Md5 where
  hash text := '[' :: (text++[']'])
  injective _ _ h := List.append_cancel_right (List.tail_eq_of_cons_eq h)
  trimmed text := by
    rw [trim,List.dropWhile_cons_of_neg (by decide),← List.cons_append,
      List.rdropWhile_concat_neg _ _ _ (by decide)]

def inOrder : Collation := ⟨id,fun _ => List.Perm.refl _⟩

def clusters : Deployment := ⟨bracket,inOrder,inOrder⟩

def integer : ColumnType := ⟨"pg_catalog".toList,"int4".toList,none⟩

def orders (columns : List Column) : Table := ⟨publicSchema,"orders".toList,columns⟩

def idColumn : Column := ⟨"id".toList,integer,true⟩

def noteColumn (modifier : ℕ) : Column :=
  ⟨"note".toList,⟨"pg_catalog".toList,"varchar".toList,some modifier⟩,false⟩

def single (t : Table) : Database := ⟨[t],List.nodup_singleton _⟩

def pair (t u : Table) (h : t.key ≠ u.key) : Database := ⟨[t,u],by simpa using h⟩

instance instDecidableTablePlain (t : Table) : Decidable t.Plain :=
  decidable_of_iff
    (('.' ∉ t.schema ∧ '\n' ∉ t.schema) ∧ (':' ∉ t.name ∧ '\n' ∉ t.name) ∧
      (∀ c ∈ t.columns, (':' ∉ c.name ∧ '\n' ∉ c.name) ∧ '\n' ∉ c.type.name) ∧ t.columns ≠ [])
    ⟨fun h => ⟨h.1,h.2.1,h.2.2.1,h.2.2.2⟩,fun h => ⟨h.1,h.2,h.3,h.4⟩⟩

instance instDecidableDatabasePlain (d : Database) : Decidable d.Plain :=
  decidable_of_iff
    ((∀ t ∈ d.tables, userSchemas t.schema = true → t.Plain) ∧
      ∀ t ∈ d.tables, userSchema t.schema = true → userSchemas t.schema = true)
    ⟨fun h => ⟨h.1,h.2⟩,fun h => ⟨h.1,h.2⟩⟩

instance instDecidableSameTypes (d r : Database) : Decidable (SameTypes d r) :=
  inferInstanceAs (Decidable (∀ t ∈ d.tables, ∀ t' ∈ r.tables, t.key = t'.key →
    ∀ p ∈ t.columns.zip t'.columns, p.1.name = p.2.name → p.1.type.name = p.2.type.name →
      p.1.type = p.2.type))

instance instDecidableMeets (w : World) (e : Event) : Decidable (meets w e) := by
  unfold meets
  split <;> infer_instance

def quietRun : List Event :=
  [.readDonor,.readRecipient,.arm,.sealing,.reconcile,.sealed,.drain,.transfer]

theorem schemas_agree_at_seal_quiet : ∃ w, run (step clusters)
    {donor := single (orders [idColumn]), recipient := single (orders [idColumn])} quietRun = some w ∧
    w.stage = .transferring ∧ ∃ d r, w.atSeal = some (d,r) ∧ Agree d r := by
  have hm : Guarded (step clusters) meets
      {donor := single (orders [idColumn]), recipient := single (orders [idColumn])} quietRun := by
    decide +kernel
  have hr : (run (step clusters)
      {donor := single (orders [idColumn]), recipient := single (orders [idColumn])} quietRun).any
      (fun w => w.stage = .transferring) := by decide +kernel
  obtain ⟨w,hw,hs⟩ := (Option.any_eq_true _ _).1 hr
  have hs := of_decide_eq_true hs
  exact ⟨w,hw,hs,schemas_agree_at_seal clusters _ _ quietRun w hm hw hs⟩

structure Case where
  donor : Database
  recipient : Database
  events : List Event

def disagreements : List Case := [
  ⟨single (orders [idColumn]),single (orders [idColumn]),
    [.readDonor,.readRecipient,.begin false,.donorDdl (single (orders [idColumn,noteColumn 80])),
      .arm,.sealing,.reconcile,.sealed,.drain,.transfer]⟩,
  ⟨single (orders [idColumn]),single (orders [idColumn]),
    [.readDonor,.readRecipient,.arm,.begin false,.sealing,.reconcile,
      .donorDdl (single (orders [idColumn,noteColumn 80])),.sealed,.drain,.transfer]⟩,
  ⟨single (orders [idColumn,noteColumn 80]),single (orders [idColumn,noteColumn 80]),
    [.readDonor,.readRecipient,.recipientDdl (single (orders [idColumn])),
      .arm,.sealing,.reconcile,.sealed,.drain,.transfer]⟩,
  ⟨single ⟨"a.b".toList,"c".toList,[idColumn]⟩,single ⟨"a".toList,"b.c".toList,[idColumn]⟩,quietRun⟩,
  ⟨pair (orders [idColumn]) ⟨publicSchema,"marks".toList,[]⟩ (by decide),single (orders [idColumn]),
    quietRun⟩,
  ⟨single (orders [noteColumn 80]),single (orders [noteColumn 20]),quietRun⟩,
  ⟨pair (orders [idColumn]) ⟨"pgxtemp".toList,"orders".toList,[idColumn]⟩ (by decide),
    single (orders [idColumn]),quietRun⟩]

def disagreed (w : World) : Bool :=
  w.stage = .transferring && w.atSeal.any fun s =>
    s.1.tables.any fun t => userSchema t.schema && t ∉ s.2.tables

theorem not_agree_of_disagreed (h : disagreed w) :
    w.stage = .transferring ∧ ∃ d r, w.atSeal = some (d,r) ∧ ¬Agree d r := by
  simp only [disagreed,Bool.and_eq_true,decide_eq_true_eq,Option.any_eq_true,any_eq_true] at h
  obtain ⟨hs,⟨d,r⟩,hse,t,ht,hu,hm⟩ := h
  exact ⟨hs,d,r,hse,fun ha => hm ((ha t hu).1 ht)⟩

theorem schemas_disagree_at_seal : disagreements ≠ [] ∧ ∀ c ∈ disagreements, ∃ w,
    run (step clusters) {donor := c.donor, recipient := c.recipient} c.events = some w ∧
    w.stage = .transferring ∧ ∃ d r, w.atSeal = some (d,r) ∧ ¬Agree d r := by
  have hr : disagreements.all (fun c => (run (step clusters)
      {donor := c.donor, recipient := c.recipient} c.events).any disagreed) := by decide +kernel
  refine ⟨cons_ne_nil _ _,fun c hc => ?_⟩
  obtain ⟨w,hw,he⟩ := (Option.any_eq_true _ _).1 (all_eq_true.1 hr c hc)
  exact ⟨w,hw,not_agree_of_disagreed he⟩

end Runs
end SchemaAgreement
end PgBattery
