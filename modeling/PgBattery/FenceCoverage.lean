import PgBattery.Privileges
import PgBattery.SqlReply

/-! The client-write fence: the check that it can cover the application roles, its REVOKEs, and the
observation a seal waits for. -/
namespace PgBattery
namespace FenceCoverage
open Privileges Reachability SqlReply List

section Coverage

/-- `c LIKE 'pattern%'`, where `_` stands for any character. -/
def likePrefix : List Char → Name → Bool
  | [], _ => true
  | _::_, [] => false
  | p::pattern, c::cs => (p = '_' || p = c) && likePrefix pattern cs

def userSchemas (nspname : Name) : Bool :=
  nspname ∉ ["pg_catalog".toList,"information_schema".toList,"pgbattery".toList]
    && !likePrefix "pg_toast".toList nspname && !likePrefix "pg_temp".toList nspname

def fencedPrivileges : List Privilege := [.insert,.update,.delete,.truncate,.usage]

def privilegeType : Privilege → Text
  | .select => "SELECT".toList
  | .insert => "INSERT".toList
  | .update => "UPDATE".toList
  | .delete => "DELETE".toList
  | .truncate => "TRUNCATE".toList
  | .usage => "USAGE".toList
  | .other => "REFERENCES".toList

/-- `aclexplode`, which has no rows for an ACL that is NULL. -/
def aclexplode (rel : Relation) : List AclItem := rel.head.acl.getD []

/-- The relations and privileges the two coverage queries look at. -/
def writeGrant (kind : RelKind) (p : Privilege) : Bool :=
  (kind ∈ [.table,.partitioned] && p ∈ [.insert,.update,.delete,.truncate])
    || (kind = .sequence && p ∈ [.update,.usage])

/-- `quoteIdent` is PostgreSQL's `%I`. -/
def relationName (quoteIdent : Name → Text) (schema name : Name) : Text :=
  quoteIdent schema++ '.'::quoteIdent name

/-- `PUBLIC_WRITE_GRANTS_SQL`. -/
def publicWriteGrants (quoteIdent : Name → Text) (c : Catalog) : List Text :=
  c.relations.flatMap fun rel =>
    ((aclexplode rel).filter fun a =>
      a.grantee = none && writeGrant rel.kind a.privilege && userSchemas rel.head.schema).map fun a =>
        relationName quoteIdent rel.head.schema rel.head.name++ '|'::privilegeType a.privilege

/-- The roles a fenced role is a member of, as `pg_auth_members` says. -/
def parents (c : Catalog) (fenced : Name) : List Name :=
  closure c.memberEdges ((c.memberEdges.filter fun e => e.1 = fenced).map Prod.snd)

/-- What a parent writes: by an explicit grant, as an owner, or as a superuser. -/
def parentPaths (quoteIdent : Name → Text) (c : Catalog) (parent : Name) : List (Text × Text) :=
  (c.relations.flatMap fun rel =>
    ((aclexplode rel).filter fun a =>
      a.grantee = some parent && writeGrant rel.kind a.privilege && userSchemas rel.head.schema).map
        fun a => (relationName quoteIdent rel.head.schema rel.head.name,privilegeType a.privilege))
  ++(c.relations.filter fun rel => rel.head.owner = parent && rel.kind ∈ [.table,.partitioned] &&
      userSchemas rel.head.schema).map (fun rel =>
        (relationName quoteIdent rel.head.schema rel.head.name,"OWNER".toList))
  ++(if c.superuser parent then [("(all relations)".toList,"SUPERUSER".toList)] else [])

/-- `inherited_write_paths_sql`. -/
def inheritedWritePaths (quoteIdent : Name → Text) (c : Catalog) (fencedRoles : List Name) : List Text :=
  (fencedRoles.filter fun r => (c.role r).isSome).flatMap fun fenced =>
    ((parents c fenced).filter fun p => (c.role p).isSome && p ∉ fencedRoles).flatMap fun parent =>
      (parentPaths quoteIdent c parent).map fun w => fenced++ '|'::(parent++ '|'::(w.1++ '|'::w.2))

/-- A refusal, with what its text names. -/
inductive Failure
  | missing (role : Name)
  | superuser (role : Name)
  | ownsTables (role : Name) (tables : List Text)
  | ownsSecurityDefiner (role : Name) (functions : List Text)
  | publicHolds (privilege rel : Text)
  | publicUnparseable (row : Text)
  | reaches (fenced privilege rel parent : Text)
  | inheritedUnparseable (row : Text)
  | securityDefinerPaths (paths : List Text)
  deriving DecidableEq, Repr

def publicFailure (row : Text) : Failure :=
  match splitOnce '|' row with
  | some (rel,privilege) => .publicHolds privilege rel
  | none => .publicUnparseable row

def inheritedFailure (row : Text) : Failure :=
  let parts := do
    let (fenced,rest) ← splitOnce '|' row
    let (parent,rest) ← splitOnce '|' rest
    let (rel,privilege) ← splitOnce '|' rest
    pure (fenced,parent,rel,privilege)
  match parts with
  | some (fenced,parent,rel,privilege) => .reaches fenced privilege rel parent
  | none => .inheritedUnparseable row

def coverageGapFailures (publicRows inheritedRows : List Text) : List Failure :=
  publicRows.map publicFailure++inheritedRows.map inheritedFailure

/-- `trim_end_matches("()")`, on the reversed text. -/
def trimCallReversed : Text → Text
  | ')' :: '(' :: rest => trimCallReversed rest
  | s => s

def trimCall (s : Text) : Text := (trimCallReversed s.reverse).reverse

/-- What follows the last ` -> `. -/
def afterArrow : Text → Option Text
  | [] => none
  | c::cs =>
    match afterArrow cs with
    | some f => some f
    | none => if " -> ".toList.isPrefixOf (c::cs) then some (cs.drop 3) else none

def unacceptedSecdefPaths (paths accepted : List Text) : List Text :=
  paths.filter fun path =>
    let func := trimCall ((afterArrow path).getD path)
    !accepted.any fun a => trimCall a = func

def isValidPgRoleName : Name → Bool
  | [] => false
  | first::chars => (first.isAlpha || first = '_') &&
    chars.all fun c => c.isAlphanum || c = '_' || c = '$'

/-- `has_function_privilege(role, oid, 'EXECUTE')`. -/
def hasFunctionPrivilege (c : Catalog) (role : Name) (f : Function) : Bool :=
  c.superuser role || match f.acl with
    | none => true
    | some acl => acl.any fun a => a.grantee.all (· ∈ c.inherited role)

def functionName (quoteIdent : Name → Text) (f : Function) : Text :=
  relationName quoteIdent f.schema f.name++"()".toList

def ownedTables (quoteIdent : Name → Text) (c : Catalog) (role : Name) : List Text :=
  (c.relations.filter fun rel => rel.head.owner = role && rel.kind ∈ [.table,.partitioned] &&
    rel.head.schema ∉ ["pg_catalog".toList,"information_schema".toList]).map fun rel =>
      relationName quoteIdent rel.head.schema rel.head.name

def secdefFunctions (quoteIdent : Name → Text) (c : Catalog) (role : Name) : List Text :=
  (c.functions.filter fun f => f.prosecdef && f.owner ≠ role && hasFunctionPrivilege c role f &&
    f.schema ∉ ["pg_catalog".toList,"information_schema".toList]).map (functionName quoteIdent)

def ownedSecdef (quoteIdent : Name → Text) (c : Catalog) (role : Name) : List Text :=
  (c.functions.filter fun f => f.prosecdef && f.owner = role).map (functionName quoteIdent)

/-- Whether the reply to `SELECT rolsuper::text` says that the role is a superuser. -/
def saysSuperuser (reply : Text) : Bool := (trim reply).map Char.toLower = "t".toList

/-- The failures and the SECURITY DEFINER paths one role adds. -/
def checkOneAppRole (quoteIdent : Name → Text) (c : Catalog) (role : Name) :
    Except Name (List Failure × List Text) :=
  if !isValidPgRoleName role then .error role
  else match c.role role with
    | none => .ok ([.missing role],[])
    | some r =>
      let superuser := if saysSuperuser (boolText r.rolsuper) then [Failure.superuser role] else []
      let owned := sqlLines (render (ownedTables quoteIdent c role))
      let tables := if owned ≠ [] then [Failure.ownsTables role owned] else []
      let paths := (sqlLines (render (secdefFunctions quoteIdent c role))).map fun p =>
        role++" -> ".toList++p
      let functions := sqlLines (render (ownedSecdef quoteIdent c role))
      let secdef := if functions ≠ [] then [Failure.ownsSecurityDefiner role functions] else []
      .ok (superuser++tables++secdef,paths)

def collectFenceFeasibility (quoteIdent : Name → Text) (c : Catalog) (appRoles : List Name)
    (accepted : List Text) : Except Name (List Failure × List Text) := do
  let checked ← appRoles.mapM (checkOneAppRole quoteIdent c)
  let paths := checked.flatMap Prod.snd
  let publicRows := sqlLines (render (publicWriteGrants quoteIdent c))
  let inheritedRows := sqlLines (render (inheritedWritePaths quoteIdent c appRoles))
  let unaccepted := unacceptedSecdefPaths paths accepted
  let secdef := if unaccepted ≠ [] then [Failure.securityDefinerPaths unaccepted] else []
  pure (checked.flatMap Prod.fst++coverageGapFailures publicRows inheritedRows++secdef,paths)

/-- A role name that is not valid stops the check; failures refuse the roles. -/
inductive Refusal
  | invalid (role : Name)
  | failures (failures : List Failure)
  deriving DecidableEq, Repr

def requireFenceCoversRoles (quoteIdent : Name → Text) (c : Catalog) (appRoles : List Name)
    (accepted : List Text) : Except Refusal Unit :=
  match collectFenceFeasibility quoteIdent c appRoles accepted with
  | .error role => .error (.invalid role)
  | .ok (failures,_) => if failures ≠ [] then .error (.failures failures) else .ok ()

end Coverage

section Fence

/-- What `revoke_sql` takes on a relation of the kind. -/
def revoked : RelKind → List Privilege
  | .sequence => [.usage,.update]
  | _ => [.insert,.update,.delete,.truncate]

/-- REVOKE removes what the owner granted, for a superuser acts as the owner. -/
def keepItem (role owner : Name) (privileges : List Privilege) (a : AclItem) : Bool :=
  !(a.grantee = some role && a.privilege ∈ privileges && a.grantor = owner)

/-- A REVOKE writes the default ACL out, and takes the privilege on single columns along. -/
def revokeHead (role : Name) (kind : RelKind) (head : Head) : Head :=
  if userSchemas head.schema then
    {head with
      acl := some ((head.acl.getD (acldefault kind head.owner)).filter
        (keepItem role head.owner (revoked kind))),
      columns := head.columns.filter (keepItem role head.owner (revoked kind))}
  else head

def revokeRelation (role : Name) : Relation → Relation
  | .plain kind head => .plain kind (revokeHead role kind head)
  | .updatable head securityInvoker base =>
    .updatable (revokeHead role .view head) securityInvoker (revokeRelation role base)

/-- `default_revoke_sql`, for every owner that granted the role a default. -/
def revokeDefault (role : Name) (d : DefaultAcl) : DefaultAcl :=
  let kind : RelKind := if d.sequences then .sequence else .table
  {d with acl := d.acl.filter (keepItem role d.owner (revoked kind))}

/-- `revoke_sql` and `default_revoke_sql` for one role. -/
def revoke (c : Catalog) (role : Name) : Catalog :=
  {c with
    relations := c.relations.map (revokeRelation role),
    defaults := c.defaults.map (revokeDefault role)}

/-- The REVOKEs of `apply_sql`, one transaction. -/
def applyClientWriteFence (appRoles : List Name) (c : Catalog) : Catalog := appRoles.foldl revoke c

/-- `revocable_grants_expr`. -/
def revocableGrants (c : Catalog) (appRoles : List Name) : Bool :=
  appRoles ≠ [] &&
    ((c.relations.any fun rel => (aclexplode rel).any fun a =>
        a.grantee.any (fun g => (c.role g).isSome && g ∈ appRoles) && a.privilege ∈ fencedPrivileges &&
          userSchemas rel.head.schema)
      || c.defaults.any fun d => d.acl.any fun a =>
        a.grantee.any (fun g => (c.role g).isSome && g ∈ appRoles) && a.privilege ∈ fencedPrivileges)

/-- The server a seal reads: `fenceTable` lists the clusters with rows in `client_fence_revoked`. -/
structure Server where
  catalog : Catalog
  inRecovery : Bool := false
  ddlTrigger : Bool := true
  fenceTable : Option (List Text) := none
  preparedXacts : Bool := false

structure FenceGrants where
  revocable : Bool
  recorded : Bool

structure FenceObservation where
  isPrimary : Bool
  freezeInstalled : Bool
  grants : FenceGrants
  prepared : Bool

def FenceObservation.sealable (o : FenceObservation) : Bool :=
  o.isPrimary && o.freezeInstalled && !o.grants.revocable && !o.prepared

def observe (server : Server) (appRoles : List Name) (clusterId : Text) :
    Except Text FenceObservation := do
  if !appRoles.all isValidPgRoleName then throw "invalid role name".toList
  let recorded ←
    if ← parsePgBool (boolText server.fenceTable.isSome) then
      parsePgBool (boolText (server.fenceTable.any (clusterId ∈ ·)))
    else pure false
  return {
    isPrimary := ← parsePgBool (boolText (!server.inRecovery))
    freezeInstalled := ← parsePgBool (boolText server.ddlTrigger)
    grants := {
      revocable := ← parsePgBool (boolText (revocableGrants server.catalog appRoles))
      recorded }
    prepared := ← parsePgBool (boolText server.preparedXacts) }

theorem seen_of_sealable {server : Server} {appRoles : List Name} {clusterId : Text}
    {o : FenceObservation} (h : observe server appRoles clusterId = .ok o) (ho : o.sealable) :
    revocableGrants server.catalog appRoles = false ∧ server.preparedXacts = false := by
  rw [observe] at h
  split at h
  · cases h
  · rcases server with ⟨c,recovery,trigger,_ | clusters,xacts⟩ <;>
    · simp only [parsePgBool_boolText] at h
      cases h
      simp only [FenceObservation.sealable,Bool.and_eq_true,Bool.not_eq_true'] at ho
      exact ⟨ho.1.2,ho.2⟩

end Fence

section Narrowing

structure Narrows (rel rel' : Relation) : Prop where
  kind : rel'.kind = rel.kind
  schema : rel'.head.schema = rel.head.schema
  owner : rel'.head.owner = rel.head.owner
  acl : rel'.head.acl = none → rel.head.acl = none
  granted : rel'.granted ⊆ rel.granted

structure Revokes (c c' : Catalog) : Prop where
  roles : c'.roles = c.roles
  members : c'.members = c.members
  relations : ∀ rel' ∈ c'.relations, ∃ rel ∈ c.relations, Narrows rel rel'

theorem Revokes.refl (c : Catalog) : Revokes c c :=
  ⟨rfl,rfl,fun rel h => ⟨rel,h,rfl,rfl,rfl,id,List.Subset.refl _⟩⟩

theorem Revokes.trans {a b c : Catalog} (h : Revokes a b) (k : Revokes b c) : Revokes a c := by
  refine ⟨k.roles.trans h.roles,k.members.trans h.members,fun rel'' hr => ?_⟩
  obtain ⟨rel',hr',hk⟩ := k.relations rel'' hr
  obtain ⟨rel,hr,hh⟩ := h.relations rel' hr'
  exact ⟨rel,hr,hk.kind.trans hh.kind,hk.schema.trans hh.schema,hk.owner.trans hh.owner,
    hh.acl ∘ hk.acl,List.Subset.trans hk.granted hh.granted⟩

theorem revokeRelation_narrows (role : Name) (rel : Relation) : Narrows rel (revokeRelation role rel) := by
  have hh : ∀ kind head, (revokeHead role kind head).schema = head.schema ∧
      (revokeHead role kind head).owner = head.owner ∧
      ((revokeHead role kind head).acl = none → head.acl = none) ∧
      (revokeHead role kind head).acl.getD (acldefault kind head.owner) ⊆
        head.acl.getD (acldefault kind head.owner) := by
    intro kind head
    by_cases hs : userSchemas head.schema
    · rw [revokeHead,if_pos hs]
      exact ⟨rfl,rfl,(fun h => by cases h),filter_subset_self _⟩
    · rw [revokeHead,if_neg hs]
      exact ⟨rfl,rfl,id,List.Subset.refl _⟩
  cases rel with
  | plain kind head =>
    obtain ⟨hsc,ho,ha,hg⟩ := hh kind head
    refine ⟨rfl,hsc,ho,ha,?_⟩
    simpa only [Relation.granted,revokeRelation,Relation.head,Relation.kind,ho] using hg
  | updatable head securityInvoker base =>
    obtain ⟨hsc,ho,ha,hg⟩ := hh .view head
    refine ⟨rfl,hsc,ho,ha,?_⟩
    simpa only [Relation.granted,revokeRelation,Relation.head,Relation.kind,ho] using hg

theorem revoke_revokes (c : Catalog) (role : Name) : Revokes c (revoke c role) := by
  refine ⟨rfl,rfl,fun rel' h => ?_⟩
  obtain ⟨rel,hr,rfl⟩ := mem_map.1 h
  exact ⟨rel,hr,revokeRelation_narrows role rel⟩

theorem fence_revokes (appRoles : List Name) : ∀ c, Revokes c (applyClientWriteFence appRoles c) := by
  induction appRoles with
  | nil => exact Revokes.refl
  | cons role rest ih => exact fun c => (revoke_revokes c role).trans (ih (revoke c role))

theorem rounds_revokes (appRoles : List Name) (c : Catalog) (rounds : ℕ) :
    Revokes c ((applyClientWriteFence appRoles)^[rounds] c) := by
  induction rounds with
  | zero => exact Revokes.refl c
  | succ n ih =>
    rw [Function.iterate_succ_apply']
    exact ih.trans (fence_revokes appRoles _)

end Narrowing

variable {a : AclItem} {r : Name}

section Checked
variable {quoteIdent : Name → Text} {c : Catalog} {appRoles : List Name}

/-- What the check has found to be so. -/
structure Covered (quoteIdent : Name → Text) (c : Catalog) (appRoles : List Name) : Prop where
  exist : ∀ r ∈ appRoles, (c.role r).isSome = true
  owned : ∀ r ∈ appRoles, ownedTables quoteIdent c r = []
  publicGrants : publicWriteGrants quoteIdent c = []
  inherited : inheritedWritePaths quoteIdent c appRoles = []

theorem checkOneAppRole_ok {role : Name} {paths : List Text}
    (h : checkOneAppRole quoteIdent c role = .ok ([],paths)) :
    (c.role role).isSome ∧ ownedTables quoteIdent c role = [] := by
  rw [checkOneAppRole] at h
  split at h
  · cases h
  · split at h
    · cases h
    · next r hr =>
      simp only [Except.ok.injEq,Prod.mk.injEq,append_eq_nil_iff] at h
      refine ⟨by rw [hr]; rfl,?_⟩
      have ho : sqlLines (render (ownedTables quoteIdent c role)) = [] := by
        by_contra hne
        have ht := h.1.1.2
        rw [if_pos hne] at ht
        cases ht
      refine rows_eq_nil (c := '.') rfl (fun row hro => ?_) ho
      obtain ⟨rel,_,rfl⟩ := mem_map.1 hro
      exact mem_append_right _ mem_cons_self

theorem exists_of_mapM_ok {α β ε : Type} {f : α → Except ε β} : ∀ {l : List α} {ys : List β},
    l.mapM f = .ok ys → ∀ x ∈ l, ∃ y ∈ ys, f x = .ok y
  | [], _, _, x, hx => absurd hx not_mem_nil
  | a::l, ys, h, x, hx => by
    rw [mapM_cons] at h
    cases ha : f a with
    | error e =>
      rw [ha] at h
      cases h
    | ok y =>
      cases hl : l.mapM f with
      | error e =>
        rw [ha,hl] at h
        cases h
      | ok zs =>
        rw [ha,hl] at h
        cases h
        rcases mem_cons.1 hx with rfl | hx
        · exact ⟨y,mem_cons_self,ha⟩
        · obtain ⟨z,hz,hok⟩ := exists_of_mapM_ok hl x hx
          exact ⟨z,mem_cons_of_mem _ hz,hok⟩

theorem covered_of_ok {accepted : List Text}
    (h : requireFenceCoversRoles quoteIdent c appRoles accepted = .ok ()) :
    Covered quoteIdent c appRoles := by
  rw [requireFenceCoversRoles] at h
  split at h
  · cases h
  · next failures paths hc =>
    have hn : failures = [] := by
      by_contra hne
      rw [if_pos hne] at h
      cases h
    subst hn
    rw [collectFenceFeasibility] at hc
    cases hch : appRoles.mapM (checkOneAppRole quoteIdent c) with
    | error role =>
      rw [hch] at hc
      cases hc
    | ok checked =>
      rw [hch] at hc
      change Except.ok _ = _ at hc
      simp only [Except.ok.injEq,Prod.mk.injEq,append_eq_nil_iff,coverageGapFailures,
        map_eq_nil_iff,flatMap_eq_nil_iff] at hc
      obtain ⟨⟨⟨hrol,hp,hi⟩,-⟩,-⟩ := hc
      have hrl : ∀ r ∈ appRoles,
          (c.role r).isSome ∧ ownedTables quoteIdent c r = [] := by
        intro r hr
        obtain ⟨⟨fails,ps⟩,hm,hok⟩ := exists_of_mapM_ok hch r hr
        obtain rfl : fails = [] := hrol _ hm
        exact checkOneAppRole_ok hok
      refine ⟨fun r hr => (hrl r hr).1,fun r hr => (hrl r hr).2,?_,?_⟩
      · refine rows_eq_nil (c := '|') rfl (fun row hro => ?_) hp
        obtain ⟨rel,_,hro⟩ := mem_flatMap.1 hro
        obtain ⟨a,_,rfl⟩ := mem_map.1 hro
        exact mem_append_right _ mem_cons_self
      · refine rows_eq_nil (c := '|') rfl (fun row hro => ?_) hi
        obtain ⟨fenced,_,hro⟩ := mem_flatMap.1 hro
        obtain ⟨parent,_,hro⟩ := mem_flatMap.1 hro
        obtain ⟨w,_,rfl⟩ := mem_map.1 hro
        exact mem_append_right _ mem_cons_self

theorem Covered.not_public (h : Covered quoteIdent c appRoles) {rel : Relation}
    (hr : rel ∈ c.relations) (ha : a ∈ aclexplode rel) (hg : a.grantee = none)
    (hw : writeGrant rel.kind a.privilege) : userSchemas rel.head.schema = false := by
  refine Bool.eq_false_iff.2 fun hs => ?_
  have hn := flatMap_eq_nil_iff.1 h.publicGrants rel hr
  refine filter_eq_nil_iff.1 (map_eq_nil_iff.1 hn) a ha ?_
  simp [hg,hw,hs]

variable {parent : Name}

/-- A parent that is not fenced itself has no path the check knows of. -/
theorem Covered.parentPaths_eq_nil (h : Covered quoteIdent c appRoles) {fenced : Name}
    (hf : fenced ∈ appRoles) (hre : parent ∈ closure c.memberEdges [fenced])
    (hp : parent ∉ appRoles) : parentPaths quoteIdent c parent = [] := by
  have hne : parent ≠ fenced := by
    rintro rfl
    exact hp hf
  have he : (c.role parent).isSome := by
    obtain ⟨x,hed⟩ := exists_edge_of_mem_closure hre hne
    obtain ⟨m,hm,heq⟩ := mem_map.1 hed
    obtain ⟨r,hr,hn⟩ := mem_map.1 (c.roles_exist m hm)
    rw [Catalog.role,List.find?_isSome]
    exact ⟨r,hr,decide_eq_true (hn.trans (congrArg Prod.snd heq))⟩
  have hro := flatMap_eq_nil_iff.1 h.inherited fenced
    (mem_filter.2 ⟨hf,h.exist fenced hf⟩)
  have hpa := flatMap_eq_nil_iff.1 hro parent
    (mem_filter.2 ⟨mem_closure_succ hre hne,by simp [he,hp]⟩)
  exact map_eq_nil_iff.1 hpa

theorem not_superuser_of_parentPaths (h : parentPaths quoteIdent c parent = []) :
    c.superuser parent = false := by
  refine Bool.eq_false_iff.2 fun hs => ?_
  rw [parentPaths,if_pos hs] at h
  exact cons_ne_nil _ _ (append_eq_nil_iff.1 h).2

theorem not_granted_of_parentPaths (h : parentPaths quoteIdent c parent = []) {rel : Relation}
    (hr : rel ∈ c.relations) (ha : a ∈ aclexplode rel) (hg : a.grantee = some parent)
    (hw : writeGrant rel.kind a.privilege) : userSchemas rel.head.schema = false := by
  refine Bool.eq_false_iff.2 fun hs => ?_
  have hgr := (append_eq_nil_iff.1 (append_eq_nil_iff.1 h).1).1
  have hn := flatMap_eq_nil_iff.1 hgr rel hr
  refine filter_eq_nil_iff.1 (map_eq_nil_iff.1 hn) a ha ?_
  simp [hg,hw,hs]

theorem not_owner_of_parentPaths (h : parentPaths quoteIdent c parent = []) {rel : Relation}
    (hr : rel ∈ c.relations) (ho : rel.head.owner = parent)
    (hk : rel.kind ∈ [RelKind.table,.partitioned]) : userSchemas rel.head.schema = false := by
  refine Bool.eq_false_iff.2 fun hs => ?_
  have how := (append_eq_nil_iff.1 (append_eq_nil_iff.1 h).1).2
  refine filter_eq_nil_iff.1 (map_eq_nil_iff.1 how) rel hr ?_
  simp only [ho,hk,hs,decide_true,Bool.and_self]

theorem Covered.not_owned (h : Covered quoteIdent c appRoles) (hr : r ∈ appRoles) {rel : Relation}
    (hre : rel ∈ c.relations) (ho : rel.head.owner = r)
    (hk : rel.kind ∈ [RelKind.table,.partitioned]) :
    rel.head.schema ∈ ["pg_catalog".toList,"information_schema".toList] := by
  by_contra hs
  refine filter_eq_nil_iff.1 (map_eq_nil_iff.1 (h.owned r hr)) rel hre ?_
  simp only [ho,hk,hs,decide_true,Bool.and_self,not_false_eq_true]

end Checked

section Paths

/-- A right of the role on the relation that no part of the check and no REVOKE looks at. -/
inductive Unchecked (c : Catalog) (appRoles : List Name) (role : Name) (rel : Relation)
    (p : Privilege) : Prop
  -- `rolsuper::text` is `true`, which the check compares with `t`
  | superuser (r : Name) (identity : r ∈ c.identities role) (rolsuper : c.superuser r = true)
      (missed : r ∈ appRoles ∨ r ∉ closure c.memberEdges [role])
  -- a default ACL has no rows, and ownership is asked for tables only
  | fenced (r : Name) (listed : r ∈ appRoles) (identity : r ∈ c.identities role)
      (granted : ∃ a ∈ rel.granted, a.grantee = some r ∧ a.privilege = p)
      (missed : rel.head.acl = none ∧ rel.kind ∉ [RelKind.table,.partitioned] ∨
        rel.head.acl ≠ none ∧ userSchemas rel.head.schema = false)
  | unfenced (r : Name) (unlisted : r ∉ appRoles) (identity : r ∈ c.identities role)
      (granted : ∃ a ∈ rel.granted, a.grantee = some r ∧ a.privilege = p)
      (missed : r ∉ closure c.memberEdges [role] ∨ userSchemas rel.head.schema = false ∨
        rel.kind ∈ [RelKind.view,.foreign] ∨ rel.kind = .sequence ∧ rel.head.owner = r)
  | everyone (granted : ∃ a ∈ rel.granted, a.grantee = none ∧ a.privilege = p)
      (missed : userSchemas rel.head.schema = false ∨ rel.kind ∈ [RelKind.view,.foreign])
  | column (columnwise : p ∈ [Privilege.insert,.update])
      (granted : ∃ a ∈ rel.head.columns, a.gives (c.identities role) p = true)
  | writeAllData (write : p ∈ [Privilege.insert,.update,.delete])
      (identity : pgWriteAllData ∈ c.identities role)

/-- No application role has an unchecked right that leads to the rows of a user relation. -/
def Fenceable (c : Catalog) (appRoles : List Name) : Prop :=
  ∀ role ∈ appRoles, ∀ rel ∈ c.relations, ∀ p, userSchema rel.target.schema = true →
    c.usable role rel = true → c.leadsOn (c.session role) rel p = true →
    ¬Unchecked c appRoles role rel p

/-- No application role may write to a user relation. -/
def Fenced (c : Catalog) (appRoles : List Name) : Prop :=
  ∀ role ∈ appRoles, ∀ rel ∈ c.relations, ∀ p, userSchema rel.target.schema = true →
    c.mayWrite role rel p = false

theorem Unchecked.holds {c : Catalog} {appRoles : List Name} {role : Name} {rel : Relation}
    {p : Privilege} (h : Unchecked c appRoles role rel p) : (c.session role).holds rel p := by
  refine Actor.holds_iff.2 ?_
  cases h with
  | superuser r identity rolsuper => exact .inl (any_eq_true.2 ⟨r,identity,rolsuper⟩)
  | fenced r _ identity granted | unfenced r _ identity granted =>
    obtain ⟨a,ha,hg,hp⟩ := granted
    exact .inr (.inl ⟨a,ha,AclItem.gives_iff.2 ⟨hp,.inr ⟨r,identity,hg⟩⟩⟩)
  | everyone granted =>
    obtain ⟨a,ha,hg,hp⟩ := granted
    exact .inr (.inl ⟨a,ha,AclItem.gives_iff.2 ⟨hp,.inl hg⟩⟩)
  | column columnwise granted => exact .inr (.inr (.inl ⟨columnwise,granted⟩))
  | writeAllData write identity => exact .inr (.inr (.inr ⟨write,identity⟩))

variable {c : Catalog} {session : Actor} {rel : Relation} {p : Privilege}

theorem fencedPrivileges_of_leadsOn (h : c.leadsOn session rel p) : p ∈ fencedPrivileges := by
  cases rel with
  | plain kind head =>
    change kind.writes p = true at h
    revert h
    cases kind <;> cases p <;> decide
  | updatable head securityInvoker base =>
    have hp := of_decide_eq_true (Bool.and_eq_true_iff.1 h).1
    revert hp
    cases p <;> decide

theorem writeGrant_of_leadsOn (h : c.leadsOn session rel p)
    (hk : rel.kind ∉ [RelKind.view,.foreign]) : writeGrant rel.kind p := by
  cases rel with
  | plain kind head =>
    change kind.writes p = true at h
    change kind ∉ _ at hk
    change writeGrant kind p
    revert h hk
    cases kind <;> cases p <;> decide
  | updatable head securityInvoker base => exact absurd mem_cons_self hk

theorem target_eq_head (h : rel.kind ∈ [RelKind.table,.partitioned]) : rel.target = rel.head := by
  cases rel with
  | plain kind head => rfl
  | updatable head securityInvoker base => exact absurd h (by decide : RelKind.view ∉ _)

theorem grantee_of_mem_acldefault {kind : RelKind} {owner : Name} (h : a ∈ acldefault kind owner) :
    a.grantee = some owner := by
  obtain ⟨q,_,rfl⟩ := mem_map.1 h
  rfl

theorem mem_granted (h : a ∈ rel.granted) :
    a ∈ aclexplode rel ∧ rel.head.acl ≠ none ∨ rel.head.acl = none ∧ a.grantee = some rel.head.owner := by
  rw [Relation.granted] at h
  rw [aclexplode]
  cases ha : rel.head.acl with
  | some l =>
    rw [ha] at h
    exact .inl ⟨h,Option.some_ne_none l⟩
  | none =>
    rw [ha] at h
    exact .inr ⟨rfl,grantee_of_mem_acldefault h⟩

theorem revocableGrants_of_mem {appRoles : List Name} (hr : r ∈ appRoles) (he : (c.role r).isSome)
    (hre : rel ∈ c.relations) (ha : a ∈ aclexplode rel) (hg : a.grantee = some r)
    (hp : a.privilege ∈ fencedPrivileges) (hs : userSchemas rel.head.schema) :
    revocableGrants c appRoles := by
  have hgr : (c.relations.any fun rel => (aclexplode rel).any fun a =>
      a.grantee.any (fun g => (c.role g).isSome && g ∈ appRoles) && a.privilege ∈ fencedPrivileges &&
        userSchemas rel.head.schema) := by
    refine any_eq_true.2 ⟨rel,hre,any_eq_true.2 ⟨a,ha,?_⟩⟩
    simp only [hg,Option.any_some,he,hr,hp,hs,decide_true,Bool.and_self]
  rw [revocableGrants,hgr,Bool.true_or,Bool.and_true]
  exact decide_eq_true (ne_nil_of_mem hr)

end Paths

section Main
variable {quoteIdent : Name → Text} {c c' : Catalog} {appRoles : List Name} {role : Name}
  {rel : Relation} {p : Privilege}

theorem unchecked_of_superuser (hc : Covered quoteIdent c appRoles) (hrv : Revokes c c')
    (hro : role ∈ appRoles) (h : (c'.session role).superuser) :
    Unchecked c' appRoles role rel p := by
  obtain ⟨r,hr,hs⟩ := any_eq_true.1 h
  refine .superuser r hr hs ?_
  by_cases hl : r ∈ appRoles
  · exact .inl hl
  · refine .inr fun hre => ?_
    rw [Catalog.memberEdges,hrv.members] at hre
    have hn := not_superuser_of_parentPaths (hc.parentPaths_eq_nil hro hre hl)
    rw [Catalog.superuser,Catalog.role,hrv.roles] at hs
    exact Bool.false_ne_true (hn.symm.trans hs)

theorem unchecked_of_public (hc : Covered quoteIdent c appRoles) (hr : Revokes c c')
    (hre : rel ∈ c'.relations) (hl : c'.leadsOn (c'.session role) rel p) (ha : a ∈ rel.granted)
    (hp : a.privilege = p) (hg : a.grantee = none) : Unchecked c' appRoles role rel p := by
  refine .everyone ⟨a,ha,hg,hp⟩ ?_
  by_cases hk : rel.kind ∈ [RelKind.view,.foreign]
  · exact .inr hk
  · obtain ⟨rel₀,hr₀,hn⟩ := hr.relations rel hre
    rcases mem_granted (hn.granted ha) with ⟨hro,-⟩ | ⟨-,ho⟩
    · have hw := writeGrant_of_leadsOn hl hk
      rw [← hp,hn.kind] at hw
      rw [hn.schema]
      exact .inl (hc.not_public hr₀ hro hg hw)
    · rw [hg] at ho
      cases ho

theorem unchecked_of_fenced (hc : Covered quoteIdent c appRoles) (hrv : Revokes c c')
    (hre : revocableGrants c' appRoles = false) (hrl : rel ∈ c'.relations)
    (hu : userSchema rel.target.schema) (hle : c'.leadsOn (c'.session role) rel p)
    (ha : a ∈ rel.granted) (hp : a.privilege = p) (hg : a.grantee = some r)
    (hr : r ∈ c'.identities role) (hl : r ∈ appRoles) : Unchecked c' appRoles role rel p := by
  refine .fenced r hl hr ⟨a,ha,hg,hp⟩ ?_
  rcases mem_granted ha with ⟨hro,hac⟩ | ⟨hac,ho⟩
  · refine .inr ⟨hac,Bool.eq_false_iff.2 fun hsc => ?_⟩
    have he : (c'.role r).isSome := by
      rw [Catalog.role,hrv.roles]
      exact hc.exist r hl
    have hf := fencedPrivileges_of_leadsOn hle
    rw [← hp] at hf
    have ht := revocableGrants_of_mem hl he hrl hro hg hf hsc
    exact Bool.false_ne_true (hre.symm.trans ht)
  · refine .inl ⟨hac,fun hk => ?_⟩
    obtain ⟨rel₀,hr₀,hn⟩ := hrv.relations rel hrl
    have heq : rel₀.head.owner = r := by
      rw [← hn.owner]
      exact Option.some.inj (ho.symm.trans hg)
    have hsc := hc.not_owned hl hr₀ heq (hn.kind ▸ hk)
    rw [target_eq_head hk,hn.schema] at hu
    rcases mem_cons.1 hsc with hs | hs
    · rw [hs] at hu
      revert hu
      decide
    · rw [mem_singleton.1 hs] at hu
      revert hu
      decide

theorem unchecked_of_unfenced (hc : Covered quoteIdent c appRoles) (hrv : Revokes c c')
    (hro : role ∈ appRoles) (hrl : rel ∈ c'.relations) (hle : c'.leadsOn (c'.session role) rel p)
    (ha : a ∈ rel.granted) (hp : a.privilege = p) (hg : a.grantee = some r)
    (hr : r ∈ c'.identities role) (hl : r ∉ appRoles) : Unchecked c' appRoles role rel p := by
  refine .unfenced r hl hr ⟨a,ha,hg,hp⟩ ?_
  by_contra hm
  simp only [not_or,not_not,Bool.not_eq_false] at hm
  obtain ⟨hre,hsc,hk,hs⟩ := hm
  rw [Catalog.memberEdges,hrv.members] at hre
  have hpa := hc.parentPaths_eq_nil hro hre hl
  obtain ⟨rel₀,hr₀,hn⟩ := hrv.relations rel hrl
  rw [hn.schema] at hsc
  have hw := writeGrant_of_leadsOn hle hk
  rw [hn.kind] at hw hk hs
  rcases mem_granted (hn.granted ha) with ⟨hrw,-⟩ | ⟨-,ho⟩
  · have hno := not_granted_of_parentPaths hpa hr₀ hrw hg (hp ▸ hw)
    exact Bool.false_ne_true (hno.symm.trans hsc)
  · have heq : rel₀.head.owner = r := Option.some.inj (ho.symm.trans hg)
    have ht : rel₀.kind ∈ [RelKind.table,.partitioned] := by
      rw [hn.owner] at hs
      generalize rel₀.kind = kind at hk hs
      cases kind with
      | table | partitioned => decide
      | view | foreign => exact absurd (by decide) hk
      | sequence => exact absurd ⟨rfl,heq⟩ hs
    exact Bool.false_ne_true ((not_owner_of_parentPaths hpa hr₀ heq ht).symm.trans hsc)

/-- After a check that passed and under a fence that seals, an application role writes only by a
right that was never looked at. -/
theorem fence_covers_iff (quoteIdent : Name → Text) (c : Catalog) (appRoles : List Name) (rounds : ℕ)
    (server : Server) (clusterId : Text) (o : FenceObservation)
    (hcheck : requireFenceCoversRoles quoteIdent c appRoles [] = .ok ())
    (hserver : server.catalog = (applyClientWriteFence appRoles)^[rounds] c)
    (hobserve : observe server appRoles clusterId = .ok o) (hsealable : o.sealable = true) :
    Fenced server.catalog appRoles ↔ Fenceable server.catalog appRoles := by
  have hc := covered_of_ok hcheck
  have hrv : Revokes c server.catalog := by
    rw [hserver]
    exact rounds_revokes appRoles c rounds
  have hre := (seen_of_sealable hobserve hsealable).1
  constructor
  · intro hfe role hro rel hrl p hus hu hl hun
    have hm := hfe role hro rel hrl p hus
    rw [Catalog.mayWrite,writable_eq,hu,hun.holds,hl] at hm
    exact Bool.false_ne_true hm.symm
  · intro hf role hro rel hrl p hus
    refine Bool.eq_false_iff.2 fun hm => ?_
    rw [Catalog.mayWrite,writable_eq] at hm
    simp only [Bool.and_eq_true] at hm
    obtain ⟨hu,hh,hl⟩ := hm
    refine hf role hro rel hrl p hus hu hl ?_
    rcases Actor.holds_iff.1 hh with hs | ⟨a,ha,hgi⟩ | ⟨hp,hco⟩ | ⟨hp,hal⟩
    · exact unchecked_of_superuser hc hrv hro hs
    · obtain ⟨hp,hg | ⟨r,hr,hg⟩⟩ := AclItem.gives_iff.1 hgi
      · exact unchecked_of_public hc hrv hrl hl ha hp hg
      · by_cases hli : r ∈ appRoles
        · exact unchecked_of_fenced hc hrv hre hrl hus hl ha hp hg hr hli
        · exact unchecked_of_unfenced hc hrv hro hrl hl ha hp hg hr hli
    · exact .column hp hco
    · exact .writeAllData hp hal

section Runs

def appRole : Name := "app".toList
def owner : Name := "owner".toList
def writers : Name := "writers".toList
def publicSchema : Name := "public".toList

def database (relations : List Relation) : Catalog where
  roles := [⟨appRole,false⟩,⟨owner,false⟩,⟨writers,false⟩,⟨pgWriteAllData,false⟩,⟨pgDatabaseOwner,false⟩]
  databaseOwner := owner
  relations
  schemaUsage := [(publicSchema,none)]

def orders (items columns : List AclItem) : Head :=
  ⟨publicSchema,"orders".toList,owner,some (acldefault .table owner++items),columns⟩

def granted : Catalog := database [.plain .table (orders [⟨some appRole,.insert,owner⟩] [])]

theorem fence_covers_granted :
    requireFenceCoversRoles id granted [appRole] [] = .ok () ∧
    (∃ o, observe ⟨(applyClientWriteFence [appRole])^[1] granted,false,true,none,false⟩ [appRole] [] =
      .ok o ∧ o.sealable = true) ∧
    (Fenced ((applyClientWriteFence [appRole])^[1] granted) [appRole] ↔
      Fenceable ((applyClientWriteFence [appRole])^[1] granted) [appRole]) := by
  have hc : requireFenceCoversRoles id granted [appRole] [] = .ok () := by decide +kernel
  have ho : observe ⟨(applyClientWriteFence [appRole])^[1] granted,false,true,none,false⟩
      [appRole] [] = .ok ⟨true,true,⟨false,false⟩,false⟩ := by rfl
  exact ⟨hc,⟨_,ho,rfl⟩,
    fence_covers_iff id granted [appRole] 1 _ [] _ hc rfl ho rfl⟩

/-- One catalog for each kind of right that is not looked at. -/
def gaps : List Catalog := [
  {database [.plain .table (orders [] [])] with
    roles := [⟨appRole,true⟩,⟨owner,false⟩], roles_exist := by decide},
  database [.plain .table (orders [] [⟨some appRole,.update,owner⟩])],
  {database [.plain .table (orders [] [])] with
    members := [⟨appRole,pgWriteAllData,true⟩], roles_exist := by decide},
  database [.plain .table (orders [] []),.updatable ⟨publicSchema,"recent".toList,owner,
    some [⟨none,.insert,owner⟩],[]⟩ false (.plain .table (orders [] []))],
  database [.plain .sequence ⟨publicSchema,"order_ids".toList,appRole,none,[]⟩],
  {database [.plain .table {orders [⟨some appRole,.insert,owner⟩] [] with
      schema := "pgxtemp".toList}] with
    schemaUsage := [("pgxtemp".toList,none)]},
  {database [.plain .foreign (orders [⟨some writers,.insert,owner⟩] [])] with
    members := [⟨appRole,writers,true⟩], roles_exist := by decide},
  {database [.plain .table (orders [⟨some pgDatabaseOwner,.insert,owner⟩] [])] with
    databaseOwner := appRole}]

def breached (c : Catalog) : Bool :=
  requireFenceCoversRoles id c [appRole] [] = .ok () && !revocableGrants c [appRole] &&
    c.relations.any fun rel => userSchema rel.target.schema &&
      fencedPrivileges.any fun p => c.mayWrite appRole rel p

theorem not_fenced_of_breached {c : Catalog} (h : breached c) :
    requireFenceCoversRoles id c [appRole] [] = .ok () ∧
    (∃ o, observe ⟨c,false,true,none,false⟩ [appRole] [] = .ok o ∧ o.sealable) ∧
    ¬Fenced c [appRole] := by
  simp only [breached,Bool.and_eq_true,decide_eq_true_eq,Bool.not_eq_true',any_eq_true] at h
  obtain ⟨⟨hc,hr⟩,rel,hre,hu,p,_,hm⟩ := h
  refine ⟨hc,⟨⟨true,true,⟨false,false⟩,false⟩,?_,rfl⟩,fun hf => ?_⟩
  · simp only [observe,hr]
    rfl
  · have hn := hf appRole mem_cons_self rel hre p hu
    exact Bool.false_ne_true (hn.symm.trans hm)

theorem fence_uncovered : gaps ≠ [] ∧ ∀ c ∈ gaps,
    requireFenceCoversRoles id c [appRole] [] = .ok () ∧
    (∃ o, observe ⟨c,false,true,none,false⟩ [appRole] [] = .ok o ∧ o.sealable = true) ∧
    ¬Fenced c [appRole] := by
  have ha : gaps.all breached := by decide +kernel
  exact ⟨cons_ne_nil _ _,fun c hc => not_fenced_of_breached (all_eq_true.1 ha c hc)⟩

end Runs
end Main
end FenceCoverage
end PgBattery
