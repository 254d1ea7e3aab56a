import PgBattery.Reachability
import PgBattery.Word

/-! PostgreSQL's privileges on relations: who may write what, directly, through PUBLIC, through a role
it is a member of, or through an automatically updatable view. -/
namespace PgBattery
namespace Privileges
open Reachability List

abbrev Name := List Char

inductive Privilege
  | select | insert | update | delete | truncate | usage | other
  deriving DecidableEq, Repr

/-- `aclitem`; no grantee is PUBLIC. -/
structure AclItem where
  grantee : Option Name
  privilege : Privilege
  grantor : Name
  deriving DecidableEq, Repr

/-- `relkind`: `r`, `p`, `v`, `f` and `S`. -/
inductive RelKind
  | table | partitioned | view | foreign | sequence
  deriving DecidableEq, Repr

/-- A row of `pg_class`. Without `relacl` the owner has every privilege and nobody else any. -/
structure Head where
  schema : Name
  name : Name
  owner : Name
  acl : Option (List AclItem) := none
  /-- `attacl` of all its columns. -/
  columns : List AclItem := []
  deriving DecidableEq, Repr

/-- A relation, or a view that PostgreSQL updates through to its base relation. -/
inductive Relation
  | plain (kind : RelKind) (head : Head)
  | updatable (head : Head) (securityInvoker : Bool) (base : Relation)

namespace Relation

def kind : Relation → RelKind
  | plain kind _ => kind
  | updatable .. => .view

def head : Relation → Head
  | plain _ head => head
  | updatable head .. => head

/-- The relation whose rows a write reaches in the end. -/
def target : Relation → Head
  | plain _ head => head
  | updatable _ _ base => base.target

end Relation

def acldefault (kind : RelKind) (owner : Name) : List AclItem :=
  (if kind = .sequence then [.select,.update,.usage]
    else [.select,.insert,.update,.delete,.truncate,.other]).map fun p => ⟨some owner,p,owner⟩

def Relation.granted (rel : Relation) : List AclItem :=
  rel.head.acl.getD (acldefault rel.kind rel.head.owner)

def RelKind.writes : RelKind → Privilege → Bool
  | .table, p | .partitioned, p | .foreign, p => p ∈ [.insert,.update,.delete,.truncate]
  | .sequence, p => p ∈ [.update,.usage]
  | .view, _ => false

structure Membership where
  member : Name
  role : Name
  inheritOption : Bool := true
  deriving DecidableEq, Repr

structure Role where
  name : Name
  rolsuper : Bool := false
  deriving DecidableEq, Repr

/-- A row of `pg_proc`; without `proacl` everyone may execute the function. -/
structure Function where
  schema : Name
  name : Name
  owner : Name
  prosecdef : Bool
  acl : Option (List AclItem) := none

/-- A row of `pg_default_acl`; `sequences` tells objtype `S` from `r`, and other types are left out. -/
structure DefaultAcl where
  owner : Name
  schema : Option Name
  sequences : Bool
  acl : List AclItem
  deriving DecidableEq, Repr

structure Catalog where
  roles : List Role
  /-- `pg_auth_members`, which never names a role that does not exist. -/
  members : List Membership := []
  databaseOwner : Name
  relations : List Relation
  /-- Who holds USAGE on a schema, its owner among them. -/
  schemaUsage : List (Name × Option Name) := []
  functions : List Function := []
  defaults : List DefaultAcl := []
  roles_exist : ∀ m ∈ members, m.role ∈ roles.map Role.name := by simp

def pgDatabaseOwner : Name := "pg_database_owner".toList
def pgReadAllData : Name := "pg_read_all_data".toList
def pgWriteAllData : Name := "pg_write_all_data".toList

namespace Catalog
variable (c : Catalog)

def role (name : Name) : Option Role := c.roles.find? fun r => r.name = name

def superuser (name : Name) : Bool := (c.role name).any Role.rolsuper

def memberEdges : List (Name × Name) := c.members.map fun m => (m.member,m.role)

/-- The owner of the database is a member of `pg_database_owner` with no row saying so. -/
def ownerEdge : Name × Name := (c.databaseOwner,pgDatabaseOwner)

/-- The role and every role it is a member of: with or without INHERIT it can `SET ROLE` to it. -/
def identities (role : Name) : List Name := closure (c.ownerEdge::c.memberEdges) [role]

def inherited (role : Name) : List Name :=
  closure (c.ownerEdge::(c.members.filter Membership.inheritOption).map fun m => (m.member,m.role)) [role]

end Catalog

structure Actor where
  superuser : Bool
  roles : List Name

def Catalog.session (c : Catalog) (role : Name) : Actor :=
  ⟨(c.identities role).any c.superuser,c.identities role⟩

/-- The owner of a view, as whom the view's base relation is accessed. -/
def Catalog.definer (c : Catalog) (owner : Name) : Actor := ⟨c.superuser owner,c.inherited owner⟩

def AclItem.gives (a : AclItem) (roles : List Name) (p : Privilege) : Bool :=
  a.privilege = p && a.grantee.all (· ∈ roles)

def Actor.holds (who : Actor) (rel : Relation) (p : Privilege) : Bool :=
  who.superuser
    || rel.granted.any (·.gives who.roles p)
    || (p ∈ [Privilege.insert,.update] && rel.head.columns.any (·.gives who.roles p))
    || (p ∈ [Privilege.insert,.update,.delete] && pgWriteAllData ∈ who.roles)

/-- Whether a write to the relation passes its checks. A base relation is accessed as the owner of its
view, and under `security_invoker` as the user of the session. -/
def Catalog.writable (c : Catalog) (session : Actor) : Actor → Relation → Privilege → Bool
  | who, .plain kind head, p => who.holds (.plain kind head) p && kind.writes p
  | who, .updatable head securityInvoker base, p =>
    who.holds (.updatable head securityInvoker base) p && (p ∈ [Privilege.insert,.update,.delete] &&
      c.writable session (if securityInvoker then session else c.definer head.owner) base p)

/-- A relation is named through its schema, but a sequence is also reached by its OID. -/
def Catalog.usable (c : Catalog) (role : Name) (rel : Relation) : Bool :=
  rel.kind = .sequence || (c.session role).superuser
    || c.schemaUsage.any (fun u => u.1 = rel.head.schema && u.2.all (· ∈ c.identities role))
    || [pgReadAllData,pgWriteAllData].any (· ∈ c.identities role)

def Catalog.mayWrite (c : Catalog) (role : Name) (rel : Relation) (p : Privilege) : Bool :=
  c.usable role rel && c.writable (c.session role) (c.session role) rel p

def Catalog.leadsOn (c : Catalog) (session : Actor) : Relation → Privilege → Bool
  | .plain kind _, p => kind.writes p
  | .updatable head securityInvoker base, p => p ∈ [Privilege.insert,.update,.delete] &&
    c.writable session (if securityInvoker then session else c.definer head.owner) base p

theorem writable_eq (c : Catalog) (session who : Actor) (rel : Relation) (p : Privilege) :
    c.writable session who rel p = (who.holds rel p && c.leadsOn session rel p) := by
  cases rel <;> rfl

/-- The names PostgreSQL keeps for itself start with `pg_`; `pgbattery` holds the fence's own table. -/
def userSchema (schema : Name) : Bool :=
  !"pg_".toList.isPrefixOf schema && schema ∉ ["information_schema".toList,"pgbattery".toList]

theorem AclItem.gives_iff {a : AclItem} {roles : List Name} {p : Privilege} : a.gives roles p ↔
    a.privilege = p ∧ (a.grantee = none ∨ ∃ r ∈ roles, a.grantee = some r) := by
  rcases a with ⟨_ | r,q,g⟩
  · simp [gives]
  · simp [gives]

theorem Actor.holds_iff {who : Actor} {rel : Relation} {p : Privilege} : who.holds rel p ↔
    who.superuser ∨ (∃ a ∈ rel.granted, a.gives who.roles p) ∨
    (p ∈ [Privilege.insert,.update] ∧ ∃ a ∈ rel.head.columns, a.gives who.roles p) ∨
    (p ∈ [Privilege.insert,.update,.delete] ∧ pgWriteAllData ∈ who.roles) := by
  simp only [holds,Bool.or_eq_true,Bool.and_eq_true,any_eq_true,decide_eq_true_eq,or_assoc]

end Privileges
end PgBattery
