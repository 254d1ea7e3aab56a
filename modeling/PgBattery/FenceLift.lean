import PgBattery.FenceCoverage
import PgBattery.Grants
import PgBattery.Search
import PgBattery.TransitionSystem
import PgBattery.Upsert

/-! The client-write fence and the way back: what the snapshot writes down before the REVOKEs, and what
the lift grants from it. Every entry of an ACL has its grantor and its grant option here. -/
namespace PgBattery
namespace FenceLift
open Privileges FenceCoverage SqlReply Grants TransitionSystem Upsert List

section Catalog

abbrev Entry := Grant Name Privilege

/-- `relkind`. ON ALL TABLES reaches materialized views too. -/
inductive ClassKind
  | rel (kind : RelKind)
  | matview
  deriving DecidableEq, Repr

structure Class where
  schema : Name
  name : Name
  owner : Name
  kind : ClassKind
  deriving DecidableEq, Repr

/-- The key of a row of `pg_default_acl`; without a schema it is for the whole database. -/
structure DefaultKey where
  owner : Name
  schema : Option Name
  sequences : Bool
  deriving DecidableEq, Repr

inductive Object
  | relation (c : Class)
  | default (d : DefaultKey)
  deriving DecidableEq, Repr

namespace Object

def owner : Object → Name
  | relation c => c.owner
  | default d => d.owner

/-- `relkind`, or `defaclobjtype`, which is `r` or `S`. -/
def kind : Object → ClassKind
  | relation c => c.kind
  | default d => .rel (if d.sequences then .sequence else .table)

def privileges (o : Object) : List Privilege :=
  if o.kind = .rel .sequence then [.select,.update,.usage]
  else [.select,.insert,.update,.delete,.truncate,.other]

/-- What `revoke_sql` and `default_revoke_sql` name for the object. -/
def revoked (o : Object) : List Privilege :=
  if o.kind = .rel .sequence then FenceCoverage.revoked .sequence else FenceCoverage.revoked .table

/-- The privileges in force without an ACL; a default for one schema only adds to the others. -/
def acldefault : Object → List Entry
  | default ⟨_,some _,_⟩ => []
  | o => o.privileges.map (plain o.owner o.owner)

/-- An entry an ACL of the object can have: ALTER DEFAULT PRIVILEGES grants as the role it is for. -/
def admits (o : Object) (g : Entry) : Bool :=
  g.privilege ∈ o.privileges &&
    match o with
    | relation _ => true
    | default d => g.grantor = d.owner

/-- The objects that the snapshot and the probe look at. -/
def recorded : Object → Bool
  | relation c => userSchemas c.schema && c.kind ≠ .matview
  | default _ => true

end Object

structure Acl (o : Object) where
  items : List Entry
  admitted : ∀ g ∈ items, o.admits g = true

/-- `aclexplode`, which has no rows for an ACL that is NULL. -/
def exploded {o : Object} : Option (Acl o) → List Entry
  | none => []
  | some a => a.items

def granted {o : Object} : Option (Acl o) → List Entry
  | none => o.acldefault
  | some a => a.items

abbrev Acls := (o : Object) → Option (Acl o)

structure Database where
  roles : List Name
  /-- `has_privs_of_role`. -/
  hasPrivsOfRole : Name → Name → Bool
  namespaces : List Name
  relations : List Class
  named : ∀ c ∈ relations, ∀ d ∈ relations, c.schema = d.schema → c.name = d.name → c = d
  namespace_ne : [] ∉ namespaces

namespace Database

def defaults (db : Database) : List DefaultKey :=
  db.roles.flatMap fun owner => (none::db.namespaces.map some).flatMap fun schema =>
    [⟨owner,schema,false⟩,⟨owner,schema,true⟩]

def objects (db : Database) : List Object := db.relations.map .relation++db.defaults.map .default

end Database

inductive GrantKind
  | relation | default
  deriving DecidableEq, Repr

structure Row where
  clusterId : Text
  roleName : Name
  schemaName : Name
  relName : Name
  relKind : ClassKind
  privilege : Privilege
  grantKind : GrantKind
  deriving DecidableEq, Repr

/-- `PRIMARY KEY (cluster_id, role_name, schema_name, rel_name, privilege, grant_kind)`. -/
structure Key where
  clusterId : Text
  roleName : Name
  schemaName : Name
  relName : Name
  privilege : Privilege
  grantKind : GrantKind
  deriving DecidableEq, Repr

def Row.key (row : Row) : Key :=
  ⟨row.clusterId,row.roleName,row.schemaName,row.relName,row.privilege,row.grantKind⟩

structure State where
  acls : Acls
  rows : List Row

end Catalog

section Statements
variable (db : Database) (clusterId : Text)

theorem admits_plain {o : Object} {role : Name} {p : Privilege} (hp : p ∈ o.privileges) :
    o.admits (plain role o.owner p) := by
  cases o <;> simp [Object.admits,plain,Object.owner,hp]

theorem eq_plain_of_mem_acldefault {o : Object} {g : Entry} (h : g ∈ o.acldefault) :
    ∃ p ∈ o.privileges, g = plain o.owner o.owner p := by
  unfold Object.acldefault at h
  split at h
  · cases h
  · obtain ⟨p,hp,rfl⟩ := mem_map.1 h
    exact ⟨p,hp,rfl⟩

theorem admits_acldefault {o : Object} {g : Entry} (h : g ∈ o.acldefault) : o.admits g := by
  obtain ⟨p,hp,rfl⟩ := eq_plain_of_mem_acldefault h
  exact admits_plain hp

def builtin (o : Object) : Acl o := ⟨o.acldefault,fun _ => admits_acldefault⟩

def Acl.revoke {o : Object} (role : Name) (a : Acl o) : Acl o :=
  ⟨Grants.revoke role o.owner o.revoked a.items,fun g hg => a.admitted g (mem_revoke.1 hg).1⟩

def Acl.give {o : Object} (role : Name) (p : Privilege) (hp : p ∈ o.privileges) (a : Acl o) : Acl o :=
  ⟨Grants.give role o.owner p a.items,fun g hg => by
    rcases mem_give.1 hg with hmem | ⟨rfl,-⟩
    · exact a.admitted g hmem
    · exact admits_plain hp⟩

/-- A row of `pg_default_acl` that says no more than there is without it is deleted. -/
def settle : (o : Object) → Acl o → Option (Acl o)
  | .relation _, a => some a
  | .default d, a => if same a.items (Object.acldefault (.default d)) then none else some a

def record (role : Name) (p : Privilege) : Object → Row
  | .relation c => ⟨clusterId,role,c.schema,c.name,c.kind,p,.relation⟩
  | .default d => ⟨clusterId,role,d.schema.getD [],d.owner,(Object.default d).kind,p,.default⟩

/-- What the snapshot queries select for one object. -/
def selected (role : Name) (acls : Acls) (o : Object) : List Row :=
  if o.recorded then
    ((exploded (acls o)).filter fun g => g.grantee = some role && g.privilege ∈ fencedPrivileges).map
      fun g => record clusterId role g.privilege o
  else []

def snapshotInsertSql (role : Name) (s : State) : State :=
  {s with rows :=
    ((db.relations.map .relation).flatMap (selected clusterId role s.acls)).foldl (insertNew Row.key) s.rows}

def defaultSnapshotInsertSql (role : Name) (s : State) : State :=
  {s with rows :=
    ((db.defaults.map .default).flatMap (selected clusterId role s.acls)).foldl (insertNew Row.key) s.rows}

def readable (role : Name) : Prop := Search.Free "$$".toList role

instance instDecidableReadable (role : Name) : Decidable (readable role) :=
  inferInstanceAs (Decidable (Search.Free "$$".toList role))

/-- REVOKE writes the ACL of every table and sequence out. A superuser revokes as the owner. -/
def revokeSql (role : Name) (s : State) : Option State :=
  if ¬readable role ∨ role ∉ db.roles then none
  else if db.relations.any fun c => userSchemas c.schema &&
      blocked db.hasPrivsOfRole role c.owner (Object.relation c).revoked (granted (s.acls (.relation c)))
    then none
  else some {s with acls := fun
    | .relation c =>
      if userSchemas c.schema then some (((s.acls (.relation c)).getD (builtin _)).revoke role)
      else s.acls (.relation c)
    | .default d => s.acls (.default d)}

/-- Only the rows with an entry for the role are altered. -/
def defaultRevokeSql (role : Name) (s : State) : Option State :=
  if ¬readable role then none
  else some {s with acls := fun
    | .relation c => s.acls (.relation c)
    | .default d =>
      match s.acls (.default d) with
      | none => none
      | some a => if a.items.any fun g => g.grantee = some role then settle _ (a.revoke role) else some a}

/-- The statements of `apply_sql` for one role. -/
def applyRole (s : State) (role : Name) : Option State :=
  (revokeSql db role (defaultSnapshotInsertSql db clusterId role (snapshotInsertSql db clusterId role s))).bind
    (defaultRevokeSql role)

/-- `apply_sql`, one transaction. -/
def applySql (appRoles : List Name) (s : State) : Option State := run (applyRole db clusterId) s appRoles

def applyTimes (appRoles : List Name) : ℕ → State → Option State
  | 0, s => some s
  | n+1, s => (applySql db clusterId appRoles s).bind (applyTimes appRoles n)

/-- `revocable_grants_expr`. -/
def revocableGrants (appRoles : List Name) (s : State) : Bool :=
  db.objects.any fun o => o.recorded && (exploded (s.acls o)).any fun g =>
    appRoles.any (fun role => g.grantee = some role) && g.privilege ∈ fencedPrivileges

/-- GRANT, and ALTER DEFAULT PRIVILEGES GRANT. -/
def grantSql (role : Name) (p : Privilege) (o : Object) (acls : Acls) : Option Acls :=
  if hp : p ∈ o.privileges then
    some (Function.update acls o (settle o (((acls o).getD (builtin o)).give role p hp)))
  else none

/-- One turn of the loop in `lift_sql`. What no longer exists is skipped. -/
def liftRow (acls : Acls) (row : Row) : Option Acls :=
  if row.roleName ∉ db.roles then some acls
  else match row.grantKind with
    | .default =>
      if row.relName ∉ db.roles then some acls
      else if row.schemaName ≠ [] ∧ row.schemaName ∉ db.namespaces then none
      else
        let schema := if row.schemaName = [] then none else some row.schemaName
        grantSql row.roleName row.privilege (.default ⟨row.relName,schema,row.relKind = .rel .sequence⟩) acls
    | .relation =>
      match db.relations.find? fun c => c.schema = row.schemaName && c.name = row.relName with
      | none => some acls
      | some c =>
        if row.relKind = .rel .sequence ∧ c.kind ≠ .rel .sequence then none
        else grantSql row.roleName row.privilege (.relation c) acls

def liftSql (s : State) : Option State :=
  (run (liftRow db) s.acls (s.rows.filter (·.clusterId = clusterId))).map fun acls =>
    ⟨acls,s.rows.filter (·.clusterId ≠ clusterId)⟩

end Statements

section Revoke
variable {db : Database} {clusterId : Text} {o : Object} {g : Entry} {role : Name}

/-- `revoke_sql` and `default_revoke_sql` on one object. -/
def revokeAcl (role : Name) : (o : Object) → Option (Acl o) → Option (Acl o)
  | .relation c, acl =>
    if userSchemas c.schema then some ((acl.getD (builtin _)).revoke role) else acl
  | .default _, none => none
  | .default _, some a =>
    if a.items.any fun g => g.grantee = some role then settle _ (a.revoke role) else some a

/-- The fence alters the object's ACL. -/
def reached : (o : Object) → Option (Acl o) → Bool
  | .relation c, _ => userSchemas c.schema
  | .default _, acl => acl.isSome

variable {acl : Option (Acl o)}

theorem mem_granted_of_mem_exploded (h : g ∈ exploded acl) : g ∈ granted acl := by
  cases acl with
  | none => cases h
  | some a => exact h

theorem admits_of_mem_granted (h : g ∈ granted acl) : o.admits g := by
  cases acl with
  | none => exact admits_acldefault h
  | some a => exact a.admitted g h

theorem mem_privileges_of_mem_granted (h : g ∈ granted acl) : g.privilege ∈ o.privileges := by
  have ha := admits_of_mem_granted h
  unfold Object.admits at ha
  rw [Bool.and_eq_true] at ha
  exact of_decide_eq_true ha.1

theorem granted_getD (acl : Option (Acl o)) : (acl.getD (builtin o)).items = granted acl := by
  cases acl <;> rfl

theorem mem_granted_settle (a : Acl o) : g ∈ granted (settle o a) ↔ g ∈ a.items := by
  cases o with
  | relation c => rfl
  | default d =>
    rw [settle]
    split
    · next h => exact (same_iff.1 h g).symm
    · rfl

theorem revokeAcl_of_not_reached (h : reached o acl = false) (role : Name) :
    revokeAcl role o acl = acl := by
  cases o with
  | relation c =>
    have hs : ¬userSchemas c.schema := by rw [show userSchemas c.schema = false from h]; decide
    exact if_neg hs
  | default d =>
    cases acl with
    | none => rfl
    | some a => cases h

theorem mem_granted_revokeAcl (h : reached o acl) :
    g ∈ granted (revokeAcl role o acl) ↔ g ∈ granted acl ∧ taken role o.owner o.revoked g = false := by
  cases o with
  | relation c =>
    have hs : userSchemas c.schema := h
    rw [revokeAcl,if_pos hs]
    show g ∈ Grants.revoke _ _ _ _ ↔ _
    rw [mem_revoke,granted_getD]
  | default d =>
    cases acl with
    | none => cases h
    | some a =>
      rw [revokeAcl]
      split
      · rw [mem_granted_settle]
        exact mem_revoke
      · next ha =>
        have hn : ∀ e ∈ a.items, e.grantee ≠ some role := by simpa using ha
        show g ∈ a.items ↔ g ∈ a.items ∧ _
        have hse : Grants.revoke role (Object.default d).owner (Object.default d).revoked a.items = a.items :=
          revoke_eq_self hn
        conv_lhs => rw [← hse]
        exact mem_revoke

theorem mem_granted_of_mem_revokeAcl (h : g ∈ granted (revokeAcl role o acl)) :
    g ∈ granted acl := by
  cases hr : reached o acl with
  | true => exact ((mem_granted_revokeAcl hr).1 h).1
  | false => rwa [revokeAcl_of_not_reached hr] at h

theorem mem_granted_revokeAcl_of_kept (h : g ∈ granted acl)
    (hk : taken role o.owner o.revoked g = false) : g ∈ granted (revokeAcl role o acl) := by
  cases hr : reached o acl with
  | true => exact (mem_granted_revokeAcl hr).2 ⟨h,hk⟩
  | false => rwa [revokeAcl_of_not_reached hr]

/-- The object's ACL once the roles have been fenced, one after the other. -/
def aclAfter (roles : List Name) (o : Object) (acl : Option (Acl o)) : Option (Acl o) :=
  roles.foldl (fun a role => revokeAcl role o a) acl

theorem aclAfter_append (before after : List Name) (acl : Option (Acl o)) :
    aclAfter (before++after) o acl = aclAfter after o (aclAfter before o acl) := foldl_append

theorem aclAfter_cons (role : Name) (roles : List Name) (acl : Option (Acl o)) :
    aclAfter (role::roles) o acl = aclAfter roles o (revokeAcl role o acl) := rfl

theorem mem_granted_of_mem_aclAfter {roles : List Name} (h : g ∈ granted (aclAfter roles o acl)) :
    g ∈ granted acl := by
  induction roles generalizing acl with
  | nil => exact h
  | cons role roles ih => exact mem_granted_of_mem_revokeAcl (ih h)

theorem mem_granted_aclAfter_of_kept {roles : List Name} (h : g ∈ granted acl)
    (hk : ∀ role ∈ roles, taken role o.owner o.revoked g = false) :
    g ∈ granted (aclAfter roles o acl) := by
  induction roles generalizing acl with
  | nil => exact h
  | cons role roles ih =>
    have hg := mem_granted_revokeAcl_of_kept h (hk role mem_cons_self)
    exact ih hg fun r hr => hk r (mem_cons_of_mem role hr)

theorem aclAfter_of_not_reached {roles : List Name} (h : reached o acl = false) :
    aclAfter roles o acl = acl := by
  induction roles generalizing acl with
  | nil => rfl
  | cons role roles ih => rw [aclAfter_cons,revokeAcl_of_not_reached h,ih h]

theorem exploded_aclAfter_cons {c : Class} {roles : List Name} (hs : userSchemas c.schema)
    (role : Name) (acl : Option (Acl (.relation c))) :
    exploded (aclAfter (role::roles) (.relation c) acl) = granted (aclAfter (role::roles) (.relation c) acl) := by
  have hst : ∀ r (a : Option (Acl (.relation c))), ∃ b, revokeAcl r (.relation c) a = some b :=
    fun r a => ⟨_,if_pos hs⟩
  rw [aclAfter_cons]
  obtain ⟨b,hb⟩ := hst role acl
  rw [hb]
  clear hb
  induction roles generalizing b with
  | nil => rfl
  | cons r roles ih =>
    rw [aclAfter_cons]
    obtain ⟨b',hb'⟩ := hst r (some b)
    rw [hb']
    exact ih b'

/-- What the owner gave the role is gone once the role has been fenced. -/
theorem not_mem_aclAfter_of_taken {before after : List Name}
    (hr : reached o (aclAfter before o acl)) (ht : taken role o.owner o.revoked g) :
    g ∉ granted (aclAfter (before++role::after) o acl) := by
  intro hg
  rw [aclAfter_append,aclAfter_cons] at hg
  have hs := ((mem_granted_revokeAcl hr).1 (mem_granted_of_mem_aclAfter hg)).2
  rw [ht] at hs
  cases hs

end Revoke

section Snapshot
variable {db : Database} {clusterId : Text} {o : Object} {g : Entry} {role : Name} {roles : List Name}
  {s t : State} {row : Row}

def fence (db : Database) (clusterId : Text) (s : State) (role : Name) : State where
  acls := fun o => revokeAcl role o (s.acls o)
  rows := (db.objects.flatMap (selected clusterId role s.acls)).foldl (insertNew Row.key) s.rows

structure Allowed (db : Database) (s : State) (role : Name) : Prop where
  readable : readable role
  exists_role : role ∈ db.roles
  unblocked : ∀ c ∈ db.relations, userSchemas c.schema = true →
    blocked db.hasPrivsOfRole role c.owner (Object.relation c).revoked (granted (s.acls (.relation c))) = false

theorem acls_snapshot (role : Name) (s : State) :
    (defaultSnapshotInsertSql db clusterId role (snapshotInsertSql db clusterId role s)).acls = s.acls := rfl

theorem applyRole_of_allowed (h : Allowed db s role) :
    applyRole db clusterId s role = some (fence db clusterId s role) := by
  have ha : ¬(db.relations.any fun c => userSchemas c.schema && blocked db.hasPrivsOfRole role c.owner
      (Object.relation c).revoked (granted (s.acls (.relation c)))) := by
    simpa using h.unblocked
  have hdo : ¬(¬readable role ∨ role ∉ db.roles) := by simp [h.readable,h.exists_role]
  have hd' : ¬¬readable role := not_not_intro h.readable
  have hr : (defaultSnapshotInsertSql db clusterId role (snapshotInsertSql db clusterId role s)).rows =
      (fence db clusterId s role).rows := by
    show List.foldl _ (List.foldl _ _ _) _ = List.foldl _ _ (List.flatMap _ (_++_))
    rw [flatMap_append,foldl_append]
    rfl
  rw [applyRole,revokeSql,acls_snapshot,if_neg hdo,if_neg ha,Option.bind_some,defaultRevokeSql,if_neg hd']
  refine congrArg some ?_
  show State.mk _ _ = State.mk _ _
  refine congrArg₂ State.mk (funext fun o => ?_) hr
  cases o with
  | relation c => rfl
  | default d =>
    show (match s.acls (.default d) with | none => none | some a => _) = revokeAcl role (.default d) (s.acls (.default d))
    cases s.acls (.default d) <;> rfl

theorem allowed_of_applyRole (h : applyRole db clusterId s role = some t) : Allowed db s role := by
  obtain ⟨u,hu,-⟩ := Option.bind_eq_some_iff.1 h
  rw [revokeSql,acls_snapshot] at hu
  split at hu
  · cases hu
  · next hdo =>
    split at hu
    · cases hu
    · next ha =>
      rw [not_or,not_not,not_not] at hdo
      exact ⟨hdo.1,hdo.2,by simpa using ha⟩

/-- The state once the roles have been fenced, one after the other. -/
def fenced (db : Database) (clusterId : Text) (roles : List Name) (s : State) : State :=
  roles.foldl (fence db clusterId) s

theorem acls_fenced (roles : List Name) (s : State) (o : Object) :
    (fenced db clusterId roles s).acls o = aclAfter roles o (s.acls o) := by
  induction roles generalizing s with
  | nil => rfl
  | cons role roles ih => exact ih (fence db clusterId s role)

theorem eq_fenced_of_run (h : run (applyRole db clusterId) s roles = some t) :
    t = fenced db clusterId roles s := by
  induction roles generalizing s with
  | nil => cases h; rfl
  | cons role roles ih =>
    rw [run_cons] at h
    obtain ⟨u,hu,hr⟩ := Option.bind_eq_some_iff.1 h
    rw [applyRole_of_allowed (allowed_of_applyRole hu)] at hu
    cases hu
    exact ih hr

theorem run_applyRole (h : ∀ before role after, roles = before++role::after →
    Allowed db (fenced db clusterId before s) role) :
    run (applyRole db clusterId) s roles = some (fenced db clusterId roles s) := by
  induction roles generalizing s with
  | nil => rfl
  | cons role roles ih =>
    have hs : applyRole db clusterId s role = some (fence db clusterId s role) :=
      applyRole_of_allowed (h [] role roles rfl)
    rw [run_cons,hs,Option.bind_some]
    exact ih fun before r after heq => h (role::before) r after (by rw [heq]; rfl)

theorem readable_of_run (h : run (applyRole db clusterId) s roles = some t) (hr : role ∈ roles) :
    readable role := by
  induction roles generalizing s with
  | nil => cases hr
  | cons r roles ih =>
    rw [run_cons] at h
    obtain ⟨u,hu,hre⟩ := Option.bind_eq_some_iff.1 h
    rcases mem_cons.1 hr with rfl | hm
    · exact (allowed_of_applyRole hu).readable
    · exact ih hre hm

theorem applyTimes_eq_run (appRoles : List Name) (n : ℕ) (s : State) :
    applyTimes db clusterId appRoles n s =
      run (applyRole db clusterId) s (List.replicate n appRoles).flatten := by
  induction n generalizing s with
  | zero => rfl
  | succ n ih =>
    rw [replicate_succ,flatten_cons,run_append,applyTimes,applySql]
    exact congrArg _ (funext ih)

/-- An entry the snapshot writes down when the role's turn comes, after the roles before it. -/
structure Recorded (db : Database) (acls : Acls) (before : List Name) (role : Name) (o : Object)
    (g : Entry) : Prop where
  object : o ∈ db.objects
  recorded : o.recorded = true
  exploded : g ∈ exploded (aclAfter before o (acls o))
  grantee : g.grantee = some role
  privilege : g.privilege ∈ fencedPrivileges

theorem mem_selected {acls : Acls} : row ∈ selected clusterId role acls o ↔
    o.recorded ∧ ∃ g ∈ exploded (acls o), g.grantee = some role ∧ g.privilege ∈ fencedPrivileges ∧
      record clusterId role g.privilege o = row := by
  rw [selected]
  split
  · next h => simp [h,and_assoc]
  · next h => simp [h]

theorem mem_flatMap_selected {acls : Acls} : row ∈ db.objects.flatMap (selected clusterId role acls) ↔
    ∃ o g, Recorded db acls [] role o g ∧ row = record clusterId role g.privilege o := by
  rw [mem_flatMap]
  constructor
  · rintro ⟨o,ho,hr⟩
    obtain ⟨hre,g,hg,hgr,hp,rfl⟩ := mem_selected.1 hr
    exact ⟨o,g,⟨ho,hre,hg,hgr,hp⟩,rfl⟩
  · rintro ⟨o,g,h,rfl⟩
    exact ⟨o,h.object,mem_selected.2 ⟨h.recorded,g,h.exploded,h.grantee,h.privilege,rfl⟩⟩

theorem recorded_of_mem_fenced (h : row ∈ (fenced db clusterId roles s).rows) : row ∈ s.rows ∨
    ∃ before role after o g, roles = before++role::after ∧ Recorded db s.acls before role o g ∧
      row = record clusterId role g.privilege o := by
  induction roles generalizing s with
  | nil => exact .inl h
  | cons role roles ih =>
    rcases ih h with hr | ⟨before,r,after,o,g,heq,hre,hr⟩
    · rcases mem_or_mem_of_mem_foldl hr with hr | hr
      · exact .inl hr
      · obtain ⟨o,g,hre,hr⟩ := mem_flatMap_selected.1 hr
        exact .inr ⟨[],role,roles,o,g,rfl,hre,hr⟩
    · refine .inr ⟨role::before,r,after,o,g,by rw [heq]; rfl,?_,hr⟩
      exact ⟨hre.object,hre.recorded,hre.exploded,hre.grantee,hre.privilege⟩

theorem mem_rows_fenced_of_mem (h : row ∈ s.rows) : row ∈ (fenced db clusterId roles s).rows := by
  induction roles generalizing s with
  | nil => exact h
  | cons role roles ih => exact ih (mem_foldl_of_mem h)

theorem exists_row_of_recorded {before after : List Name} (heq : roles = before++role::after)
    (h : Recorded db s.acls before role o g) :
    ∃ row ∈ (fenced db clusterId roles s).rows, row.key = (record clusterId role g.privilege o).key := by
  subst heq
  have hs : record clusterId role g.privilege o ∈
      db.objects.flatMap (selected clusterId role (fenced db clusterId before s).acls) := by
    refine mem_flatMap_selected.2 ⟨o,g,⟨h.object,h.recorded,?_,h.grantee,h.privilege⟩,rfl⟩
    rw [acls_fenced]
    exact h.exploded
  obtain ⟨row,hr,hk⟩ := exists_mem_foldl Row.key hs (fenced db clusterId before s).rows
  refine ⟨row,?_,hk⟩
  rw [fenced,foldl_append,foldl_cons]
  exact mem_rows_fenced_of_mem hr

theorem unique_rows_fenced
    (h : ∀ x ∈ s.rows, ∀ y ∈ s.rows, x.key.clusterId = clusterId → x.key = y.key → x = y) :
    ∀ x ∈ (fenced db clusterId roles s).rows, ∀ y ∈ (fenced db clusterId roles s).rows,
      x.key.clusterId = clusterId → x.key = y.key → x = y := by
  induction roles generalizing s with
  | nil => exact h
  | cons role roles ih => exact ih (unique_foldl (p := fun k : Key => k.clusterId = clusterId) h)

end Snapshot

section Lift
variable {db : Database} {clusterId : Text} {o o' : Object} {g : Entry} {role role' : Name}
  {p p' : Privilege} {rows : List Row} {acls : Acls}

theorem relation_mem_objects {c : Class} : .relation c ∈ db.objects ↔ c ∈ db.relations := by
  simp [Database.objects]

theorem default_mem_objects {d : DefaultKey} : .default d ∈ db.objects ↔
    d.owner ∈ db.roles ∧ (d.schema = none ∨ ∃ n ∈ db.namespaces, d.schema = some n) := by
  obtain ⟨owner,schema,sequences⟩ := d
  have hk : (∃ a ∈ db.roles, owner = a ∧ schema = none ∨ ∃ n ∈ db.namespaces, owner = a ∧ schema = some n) ↔
      owner ∈ db.roles ∧ (schema = none ∨ ∃ n ∈ db.namespaces, schema = some n) := by
    constructor
    · rintro ⟨a,ha,⟨rfl,hno⟩ | ⟨n,hn,rfl,hs⟩⟩
      · exact ⟨ha,.inl hno⟩
      · exact ⟨ha,.inr ⟨n,hn,hs⟩⟩
    · rintro ⟨ha,hno | ⟨n,hn,hs⟩⟩
      · exact ⟨owner,ha,.inl ⟨rfl,hno⟩⟩
      · exact ⟨owner,ha,.inr ⟨n,hn,rfl,hs⟩⟩
  cases sequences <;> simpa [Database.objects,Database.defaults,eq_comm] using hk

theorem schema_eq_of_getD {d : DefaultKey} (h : .default d ∈ db.objects) :
    (if d.schema.getD [] = [] then none else some (d.schema.getD [])) = d.schema ∧
      (d.schema.getD [] = [] ∨ d.schema.getD [] ∈ db.namespaces) := by
  rcases (default_mem_objects.1 h).2 with hn | ⟨n,hn,heq⟩
  · rw [hn]
    exact ⟨rfl,.inl rfl⟩
  · have hne : n ≠ [] := fun hni => db.namespace_ne (hni ▸ hn)
    rw [heq]
    exact ⟨if_neg hne,.inr hn⟩

/-- Records with one key are of one object, or of an owner's two defaults: `rel_kind` is not in it. -/
theorem eq_or_sibling_of_key (ho : o ∈ db.objects) (ho' : o' ∈ db.objects)
    (h : (record clusterId role p o).key = (record clusterId role' p' o').key) :
    role = role' ∧ p = p' ∧ (o = o' ∨ ∃ owner schema sequences,
      o = .default ⟨owner,schema,sequences⟩ ∧ o' = .default ⟨owner,schema,!sequences⟩) := by
  cases o with
  | relation c =>
    cases o' with
    | relation d =>
      obtain ⟨-,hr,hsc,hn,hp,-⟩ := Key.mk.inj h
      have hcd := db.named c (relation_mem_objects.1 ho) d (relation_mem_objects.1 ho') hsc hn
      exact ⟨hr,hp,.inl (congrArg Object.relation hcd)⟩
    | default d =>
      obtain ⟨-,-,-,-,-,hk⟩ := Key.mk.inj h
      cases hk
  | default d =>
    cases o' with
    | relation c =>
      obtain ⟨-,-,-,-,-,hk⟩ := Key.mk.inj h
      cases hk
    | default e =>
      obtain ⟨-,hr,hsc,how,hp,-⟩ := Key.mk.inj h
      have hs : d.schema = e.schema := by
        have hd := (schema_eq_of_getD ho).1
        rw [show d.schema.getD [] = e.schema.getD [] from hsc] at hd
        exact hd.symm.trans (schema_eq_of_getD ho').1
      obtain ⟨owner,schema,sequences⟩ := d
      obtain ⟨owner',schema',sequences'⟩ := e
      obtain rfl : owner = owner' := how
      obtain rfl : schema = schema' := hs
      refine ⟨hr,hp,?_⟩
      by_cases hse : sequences = sequences'
      · exact .inl (by rw [hse])
      · refine .inr ⟨owner,schema,sequences,rfl,?_⟩
        rw [← Bool.eq_not_of_ne (Ne.symm hse)]

theorem record_inj (ho : o ∈ db.objects) (ho' : o' ∈ db.objects)
    (h : record clusterId role p o = record clusterId role' p' o') : role = role' ∧ p = p' ∧ o = o' := by
  obtain ⟨hr,hp,heq | ⟨owner,schema,sequences,rfl,rfl⟩⟩ :=
    eq_or_sibling_of_key ho ho' (congrArg Row.key h)
  · exact ⟨hr,hp,heq⟩
  · have hk := congrArg Row.relKind h
    cases sequences <;> cases hk

theorem liftRow_record (ho : o ∈ db.objects) (hro : role ∈ db.roles) :
    liftRow db acls (record clusterId role p o) = grantSql role p o acls := by
  have hr : ¬role ∉ db.roles := not_not_intro hro
  cases o with
  | relation c =>
    have hc := relation_mem_objects.1 ho
    have hf : db.relations.find? (fun d => d.schema = c.schema && d.name = c.name) = some c := by
      have hso : (db.relations.find? fun d => d.schema = c.schema && d.name = c.name).isSome :=
        List.find?_isSome.2 ⟨c,hc,by simp⟩
      obtain ⟨d,hd⟩ := Option.isSome_iff_exists.1 hso
      have hcd : d.schema = c.schema ∧ d.name = c.name := by simpa using List.find?_some hd
      rw [hd,db.named d (List.mem_of_find?_eq_some hd) c hc hcd.1 hcd.2]
    have hk : ¬(c.kind = .rel .sequence ∧ c.kind ≠ .rel .sequence) := fun h => h.2 h.1
    have hre : liftRow db acls (record clusterId role p (.relation c)) = if role ∉ db.roles then some acls
        else match db.relations.find? fun d => d.schema = c.schema && d.name = c.name with
          | none => some acls
          | some d => if c.kind = .rel .sequence ∧ d.kind ≠ .rel .sequence then none
            else grantSql role p (.relation d) acls := rfl
    rw [hre,if_neg hr,hf]
    exact if_neg hk
  | default d =>
    have how : ¬d.owner ∉ db.roles := not_not_intro (default_mem_objects.1 ho).1
    obtain ⟨hs,hns⟩ := schema_eq_of_getD ho
    have hn' : ¬(d.schema.getD [] ≠ [] ∧ d.schema.getD [] ∉ db.namespaces) := by
      rintro ⟨hne,hn⟩
      rcases hns with h | h
      · exact hne h
      · exact hn h
    have hse : decide ((Object.default d).kind = .rel .sequence) = d.sequences := by
      obtain ⟨owner,schema,sequences⟩ := d
      cases sequences <;> rfl
    show (if role ∉ db.roles then _ else if d.owner ∉ db.roles then _
      else if d.schema.getD [] ≠ [] ∧ d.schema.getD [] ∉ db.namespaces then _
      else grantSql role p (.default ⟨d.owner,if d.schema.getD [] = [] then none else some (d.schema.getD []),
        decide ((Object.default d).kind = .rel .sequence)⟩) acls) = _
    rw [if_neg hr,if_neg how,if_neg hn',hs,hse]

theorem mem_granted_give (hp : p ∈ o.privileges) (acl : Option (Acl o)) :
    g ∈ granted (settle o ((acl.getD (builtin o)).give role p hp)) ↔
      g ∈ granted acl ∨ g = plain role o.owner p ∧ withOption role o.owner p ∉ granted acl := by
  rw [mem_granted_settle]
  show g ∈ Grants.give _ _ _ _ ↔ _
  rw [mem_give,granted_getD]

/-- The rows of the fence: each is the record of an object and a privilege it has. -/
def Records (db : Database) (clusterId : Text) (row : Row) : Prop :=
  ∃ role p o, role ∈ db.roles ∧ o ∈ db.objects ∧ p ∈ o.privileges ∧ row = record clusterId role p o

/-- The lift grants as the owner and without the grant option what the rows record, and nothing else. -/
theorem run_liftRow (h : ∀ row ∈ rows, Records db clusterId row) (acls : Acls) :
    ∃ lifted, run (liftRow db) acls rows = some lifted ∧ ∀ o ∈ db.objects, ∀ g,
      (g ∈ granted (lifted o) ↔ g ∈ granted (acls o) ∨ ∃ role p, record clusterId role p o ∈ rows ∧
        g = plain role o.owner p ∧ withOption role o.owner p ∉ granted (acls o)) := by
  induction rows generalizing acls with
  | nil => exact ⟨acls,rfl,fun o _ g => by simp⟩
  | cons row rows ih =>
    obtain ⟨role₁,p₁,o₁,hro,ho₁,hp,rfl⟩ := h row mem_cons_self
    have hs : liftRow db acls (record clusterId role₁ p₁ o₁) = some (Function.update acls o₁
        (settle o₁ (((acls o₁).getD (builtin o₁)).give role₁ p₁ hp))) := by
      rw [liftRow_record ho₁ hro]
      exact dif_pos hp
    obtain ⟨lifted,hru,hl⟩ := ih (fun row hr => h row (mem_cons_of_mem _ hr))
      (Function.update acls o₁ (settle o₁ (((acls o₁).getD (builtin o₁)).give role₁ p₁ hp)))
    refine ⟨lifted,by rw [run_cons,hs]; exact hru,fun o ho g => ?_⟩
    rw [hl o ho g]
    by_cases heq : o = o₁
    · subst heq
      rw [Function.update_self]
      have hop : ∀ role p, withOption role o.owner p ∈
          granted (settle o (((acls o).getD (builtin o)).give role₁ p₁ hp)) ↔
            withOption role o.owner p ∈ granted (acls o) := by
        intro role p
        rw [mem_granted_give]
        exact or_iff_left fun h => by cases h.1
      rw [mem_granted_give]
      constructor
      · rintro ((hg | ⟨rfl,hno⟩) | ⟨role,p,hr,rfl,hno⟩)
        · exact .inl hg
        · exact .inr ⟨role₁,p₁,mem_cons_self,rfl,hno⟩
        · exact .inr ⟨role,p,mem_cons_of_mem _ hr,rfl,(not_congr (hop role p)).1 hno⟩
      · rintro (hg | ⟨role,p,hr,rfl,hno⟩)
        · exact .inl (.inl hg)
        · rcases mem_cons.1 hr with hr | hr
          · obtain ⟨rfl,rfl,-⟩ := record_inj ho ho hr
            exact .inl (.inr ⟨rfl,hno⟩)
          · exact .inr ⟨role,p,hr,rfl,(not_congr (hop role p)).2 hno⟩
    · rw [Function.update_of_ne heq]
      refine or_congr_right (exists₂_congr fun role p => and_congr_left fun _ => ?_)
      rw [mem_cons]
      exact (or_iff_right fun hr => heq (record_inj ho ho₁ hr).2.2).symm

end Lift

end FenceLift
end PgBattery
