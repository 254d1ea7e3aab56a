import PgBattery.FenceLift

/-! When the lift brings back what the fence took: from the other roles' grants, grant options, names and
defaults that get in its way to the exact condition. -/
namespace PgBattery
namespace FenceLift
open Privileges FenceCoverage SqlReply Grants TransitionSystem Upsert List

section Defaults
variable {d : DefaultKey} {g : Entry} {role : Name} {before : List Name}

/-- What is left of the entries once the fence has been over the roles before. -/
def leftover (before : List Name) (o : Object) (items : List Entry) : List Entry :=
  items.filter fun g => before.all fun role => !taken role o.owner o.revoked g

/-- Fencing the roles before leaves of a row of `pg_default_acl` only what there is without it. -/
def erased (before : List Name) (o : Object) (items : List Entry) : Bool :=
  before.any (fun role => items.any fun g => g.grantee = some role) &&
    same (leftover before o items) o.acldefault

theorem leftover_concat (before : List Name) (role : Name) (o : Object) (items : List Entry) :
    leftover (before++[role]) o items = Grants.revoke role o.owner o.revoked (leftover before o items) := by
  rw [leftover,leftover,Grants.revoke,filter_filter]
  refine filter_congr fun g _ => ?_
  simp [Bool.and_comm]

theorem mem_leftover_of_not_mem {o : Object} {items : List Entry} (h : g ∈ items)
    (hg : g.grantee = some role) (hro : role ∉ before) : g ∈ leftover before o items := by
  refine mem_filter.2 ⟨h,all_eq_true.2 fun r hr => ?_⟩
  have hne : role ≠ r := fun heq => hro (heq ▸ hr)
  simp [taken,hg,hne]

theorem revokeAcl_default (r : Name) (b : Acl (.default d)) : revokeAcl r (.default d) (some b) =
    if b.items.any fun g => g.grantee = some r then
      if same (b.revoke r).items (Object.acldefault (.default d)) then none else some (b.revoke r)
    else some b := rfl

theorem aclAfter_default (before : List Name) (a : Acl (.default d)) :
    aclAfter before (.default d) (some a) = none ∨ ∃ b, aclAfter before (.default d) (some a) = some b ∧
      b.items = leftover before (.default d) a.items ∧ erased before (.default d) a.items = false := by
  induction before using List.reverseRecOn with
  | nil => exact .inr ⟨a,rfl,by simp [leftover],rfl⟩
  | append_singleton before r ih =>
    rw [aclAfter_append]
    rcases ih with hn | ⟨b,hb,hi,hs⟩
    · exact .inl (by rw [hn]; rfl)
    · have hr : (b.revoke r).items = leftover (before++[r]) (.default d) a.items := by
        rw [leftover_concat,← hi]
        rfl
      rw [hb,aclAfter_cons,revokeAcl_default]
      split_ifs with ha hsa
      · exact .inl rfl
      · exact .inr ⟨_,rfl,hr,by simp [erased,← hr,hsa]⟩
      · have hn : ∀ e ∈ b.items, e.grantee ≠ some r := by simpa using ha
        have hl : leftover (before++[r]) (.default d) a.items = leftover before (.default d) a.items := by
          rw [leftover_concat,← hi,revoke_eq_self hn]
        refine .inr ⟨b,rfl,by rw [hl,hi],?_⟩
        by_contra her
        simp only [erased,hl,Bool.not_eq_false,Bool.and_eq_true,any_eq_true,decide_eq_true_eq]
          at her
        obtain ⟨⟨r',hr',e,he,hg⟩,hsa⟩ := her
        have hm : r' ∈ before := by
          by_contra hno
          obtain rfl : r' = r := by simpa [hno] using hr'
          exact hn e (hi ▸ mem_leftover_of_not_mem he hg hno) hg
        simp only [erased,hsa,Bool.and_true,any_eq_false] at hs
        exact hs r' hm (any_eq_true.2 ⟨e,he,decide_eq_true hg⟩)

theorem erased_of_aclAfter_eq_none {a : Acl (.default d)} (hg : g ∈ a.items)
    (hgr : g.grantee = some role) (hro : role ∉ before)
    (h : aclAfter before (.default d) (some a) = none) : erased before (.default d) a.items := by
  induction before using List.reverseRecOn with
  | nil => cases h
  | append_singleton before r ih =>
    obtain ⟨hr',hne⟩ : role ∉ before ∧ role ≠ r := by simpa using hro
    rw [aclAfter_append] at h
    rcases aclAfter_default before a with hn | ⟨b,hb,hi,-⟩
    · have hbe := ih hr' hn
      rw [erased,Bool.and_eq_true] at hbe
      have hm := mem_leftover_of_not_mem (o := .default d) hg hgr hr'
      obtain ⟨p,-,rfl⟩ := eq_plain_of_mem_acldefault ((same_iff.1 hbe.2 g).1 hm)
      have hk : ∀ e ∈ leftover before (.default d) a.items, e.grantee ≠ some r := by
        intro e he hr
        obtain ⟨q,-,rfl⟩ := eq_plain_of_mem_acldefault ((same_iff.1 hbe.2 e).1 he)
        exact hne ((Option.some.inj hgr).symm.trans (Option.some.inj hr))
      rw [erased,leftover_concat,revoke_eq_self hk,hbe.2,any_append,hbe.1]
      rfl
    · rw [hb,aclAfter_cons,revokeAcl_default] at h
      split_ifs at h with ha hs
      · have hre : (b.revoke r).items = leftover (before++[r]) (.default d) a.items := by
          rw [leftover_concat,← hi]
          rfl
        obtain ⟨e,he,hr⟩ : ∃ e ∈ b.items, e.grantee = some r := by simpa using ha
        rw [erased,← hre,hs,Bool.and_true,any_append,Bool.or_eq_true]
        right
        simpa using ⟨e,(mem_filter.1 (hi ▸ he)).1,hr⟩
      all_goals cases h

theorem exploded_aclAfter_default {acl : Option (Acl (.default d))} (hr : role ∉ before)
    (hg : g.grantee = some role) : g ∈ exploded (aclAfter before (.default d) acl) ↔
      g ∈ exploded acl ∧ erased before (.default d) (exploded acl) = false := by
  cases acl with
  | none =>
    rw [aclAfter_of_not_reached rfl]
    simp [exploded]
  | some a =>
    rcases aclAfter_default before a with hn | ⟨b,hb,hi,hs⟩
    · rw [hn]
      refine ⟨fun h => absurd h not_mem_nil,fun h => ?_⟩
      have he := erased_of_aclAfter_eq_none h.1 hg hr hn
      exact absurd (h.2.symm.trans he) Bool.false_ne_true
    · rw [hb]
      show g ∈ b.items ↔ _
      rw [hi]
      exact ⟨fun h => ⟨(mem_filter.1 h).1,hs⟩,fun h => mem_leftover_of_not_mem h.1 hg hr⟩

end Defaults

section RoundTrip
variable {db : Database} {clusterId : Text} {appRoles roles before after : List Name} {acls : Acls}
  {others : List Row} {o : Object} {g : Entry} {role : Name} {p : Privilege}

/-- The other clusters have their own rows in the fence table; this one has none yet. -/
def unfenced (clusterId : Text) (acls : Acls) (others : List Row) : State :=
  ⟨acls,others.filter (·.clusterId ≠ clusterId)⟩

/-- However often the fence is put up, the probe then sees nothing to revoke, and the lift brings back
every entry of the roles, as it was, and no other, and forgets its rows. -/
def RoundTrips (db : Database) (clusterId : Text) (appRoles : List Name) (s : State) : Prop :=
  ∀ n, ∃ t, applyTimes db clusterId appRoles (n+1) s = some t ∧ revocableGrants db appRoles t = false ∧
    ∃ u, liftSql db clusterId t = some u ∧
      (∀ o ∈ db.objects, ∀ g : Entry, (∃ role ∈ appRoles, g.grantee = some role) →
        (g ∈ granted (u.acls o) ↔ g ∈ granted (s.acls o))) ∧
      ∀ row ∈ u.rows, row.clusterId ≠ clusterId

def WriteGrant (appRoles : List Name) (g : Entry) : Prop :=
  (∃ role ∈ appRoles, g.grantee = some role) ∧ g.privilege ∈ fencedPrivileges

/-- The default gives the role UPDATE, and still does when the roles before have been fenced. -/
def Stands (acls : Acls) (before : List Name) (role : Name) (d : DefaultKey) : Prop :=
  plain role d.owner .update ∈ exploded (acls (.default d)) ∧
    erased before (.default d) (exploded (acls (.default d))) = false

/-- What the fence can bring back. -/
structure Restorable (db : Database) (acls : Acls) (appRoles : List Name) : Prop where
  readable : ∀ role ∈ appRoles, readable role
  plain : ∀ o ∈ db.objects, o.recorded = true → ∀ g ∈ exploded (acls o), WriteGrant appRoles g →
    g.grantor = o.owner ∧ g.grantable = false
  unowned : ∀ c ∈ db.relations, userSchemas c.schema = true → acls (.relation c) = none →
    appRoles.head? ≠ some c.owner
  matview : ∀ c ∈ db.relations, userSchemas c.schema = true → c.kind = .matview →
    ∀ g ∈ granted (acls (.relation c)), WriteGrant appRoles g → g.grantor ≠ c.owner
  apart : ∀ before role after, appRoles = before++role::after → role ∉ before →
    ∀ owner schema, .default ⟨owner,schema,false⟩ ∈ db.objects →
      ¬(Stands acls before role ⟨owner,schema,false⟩ ∧ Stands acls before role ⟨owner,schema,true⟩)

theorem mem_revoked : p ∈ o.revoked ↔ p ∈ o.privileges ∧ p ∈ fencedPrivileges := by
  rw [Object.revoked,Object.privileges]
  split <;> cases p <;> decide

def Object.covered : Object → Bool
  | relation c => userSchemas c.schema
  | default _ => true

theorem covered_of_recorded (h : o.recorded) : o.covered := by
  cases o <;> simp_all [Object.recorded,Object.covered]

theorem not_reached_of_not_covered (h : o.covered = false) (acl : Option (Acl o)) : reached o acl = false := by
  cases o <;> first | exact h | cases h

theorem not_mem_exploded_of_taken (hc : o.covered) (ht : taken role o.owner o.revoked g)
    (acl : Option (Acl o)) : g ∉ exploded (aclAfter (before++role::after) o acl) := by
  intro hg
  cases hr : reached o (aclAfter before o acl) with
  | true => exact not_mem_aclAfter_of_taken hr ht (mem_granted_of_mem_exploded hg)
  | false =>
    cases o with
    | relation c => exact Bool.false_ne_true (hr.symm.trans hc)
    | default d =>
      rw [aclAfter_append,aclAfter_of_not_reached hr] at hg
      cases ha : aclAfter before (.default d) acl <;> rw [ha] at hg hr
      exacts [absurd hg not_mem_nil,Bool.noConfusion hr]

theorem record_mem_rows (ho : o ∈ db.objects)
    (h : record clusterId role p o ∈ (fenced db clusterId roles (unfenced clusterId acls others)).rows) :
    ∃ before after g, roles = before++role::after ∧ Recorded db acls before role o g ∧ g.privilege = p := by
  rcases recorded_of_mem_fenced h with hold | ⟨before,r,after,o',g,heq,hr,hro⟩
  · have hne := (mem_filter.1 hold).2
    cases o <;> simp [record] at hne
  · obtain ⟨rfl,rfl,rfl⟩ := record_inj ho hr.object hro
    exact ⟨before,after,g,heq,hr,rfl⟩

/-- What is in force after the fence and its lift. -/
theorem liftSql_fenced (clusterId : Text) (acls : Acls) (others : List Row) (hroles : ∀ role ∈ roles, role ∈ db.roles) :
    ∃ u, liftSql db clusterId (fenced db clusterId roles (unfenced clusterId acls others)) = some u ∧
      (∀ row ∈ u.rows, row.clusterId ≠ clusterId) ∧ ∀ o ∈ db.objects, ∀ g,
        (g ∈ granted (u.acls o) ↔ g ∈ granted (aclAfter roles o (acls o)) ∨ ∃ role p,
          record clusterId role p o ∈ (fenced db clusterId roles (unfenced clusterId acls others)).rows ∧
          g = plain role o.owner p ∧ withOption role o.owner p ∉ granted (aclAfter roles o (acls o))) := by
  have hr : ∀ row ∈ (fenced db clusterId roles (unfenced clusterId acls others)).rows.filter
      (·.clusterId = clusterId), Records db clusterId row := by
    intro row hro
    obtain ⟨hm,hid⟩ := mem_filter.1 hro
    rcases recorded_of_mem_fenced hm with hold | ⟨before,r,after,o,g,rfl,hre,rfl⟩
    · have hne := (mem_filter.1 hold).2
      simp only [decide_eq_true_eq] at hid hne
      exact absurd hid hne
    · have hp := mem_privileges_of_mem_granted (mem_granted_of_mem_exploded hre.exploded)
      exact ⟨r,g.privilege,o,hroles r (by simp),hre.object,hp,rfl⟩
  obtain ⟨lifted,hru,hl⟩ := run_liftRow hr
    (fenced db clusterId roles (unfenced clusterId acls others)).acls
  refine ⟨_,by rw [liftSql,hru]; rfl,fun row hro => by simpa using (mem_filter.1 hro).2,?_⟩
  intro o ho g
  rw [hl o ho g,acls_fenced]
  refine or_congr_right (exists₂_congr fun r q => and_congr_left fun _ => ?_)
  rw [mem_filter]
  exact and_iff_left (by cases o <;> simp [record])

theorem fenced_of_roundTrips (hroles : ∀ role ∈ appRoles, role ∈ db.roles)
    (h : RoundTrips db clusterId appRoles (unfenced clusterId acls others)) :
    (∀ role ∈ appRoles, readable role) ∧
      revocableGrants db appRoles (fenced db clusterId appRoles (unfenced clusterId acls others)) = false ∧
      ∀ o ∈ db.objects, ∀ g : Entry, (∃ role ∈ appRoles, g.grantee = some role) → g ∈ granted (acls o) →
        g ∈ granted (aclAfter appRoles o (acls o)) ∨ ∃ role p,
          record clusterId role p o ∈ (fenced db clusterId appRoles (unfenced clusterId acls others)).rows ∧
            g = plain role o.owner p := by
  obtain ⟨t,ht,hp,u,hu,hs,-⟩ := h 0
  rw [applyTimes_eq_run,replicate_one,flatten_singleton] at ht
  obtain rfl := eq_fenced_of_run ht
  refine ⟨fun role hr => readable_of_run ht hr,hp,fun o ho g hgr hg => ?_⟩
  obtain ⟨u',hu',-,hl⟩ := liftSql_fenced clusterId acls others hroles
  rw [hu] at hu'
  cases hu'
  rcases (hl o ho g).1 ((hs o ho g hgr).2 hg) with hle | ⟨r,q,hro,heq,-⟩
  · exact .inl hle
  · exact .inr ⟨r,q,hro,heq⟩

end RoundTrip

section Necessary
variable {db : Database} {clusterId : Text} {appRoles before after : List Name} {acls : Acls}
  {others : List Row} {o : Object} {c : Class} {g : Entry} {role : Name}
  (hroles : ∀ role ∈ appRoles, role ∈ db.roles)
  (h : RoundTrips db clusterId appRoles (unfenced clusterId acls others))

theorem taken_of_writeGrant {acl : Option (Acl o)} (hg : g ∈ granted acl) (hgr : g.grantee = some role)
    (hp : g.privilege ∈ fencedPrivileges) (ho : g.grantor = o.owner) :
    taken role o.owner o.revoked g :=
  taken_iff.2 ⟨hgr,mem_revoked.2 ⟨mem_privileges_of_mem_granted hg,hp⟩,ho⟩

theorem update_mem_privileges (o : Object) : .update ∈ o.privileges := by
  rw [Object.privileges]
  split <;> decide

theorem default_mem_sibling {owner : Name} {schema : Option Name} {b : Bool} (b' : Bool)
    (ho : .default ⟨owner,schema,b⟩ ∈ db.objects) : .default ⟨owner,schema,b'⟩ ∈ db.objects := by
  have hk := default_mem_objects.1 ho
  exact default_mem_objects.2 hk

include hroles h

theorem grantor_eq_of_roundTrips (ho : o ∈ db.objects) (hre : o.recorded)
    (hg : g ∈ exploded (acls o)) (hw : WriteGrant appRoles g) : g.grantor = o.owner := by
  obtain ⟨-,hpr,-⟩ := fenced_of_roundTrips hroles h
  obtain ⟨⟨role,hr,hgr⟩,hp⟩ := hw
  by_contra hne
  have hk : ∀ r ∈ appRoles, taken r o.owner o.revoked g = false := by simp [taken,hne]
  have ha := mem_granted_aclAfter_of_kept (mem_granted_of_mem_exploded hg) hk
  cases o with
  | relation c =>
    obtain ⟨r,rest,rfl⟩ := exists_cons_of_ne_nil (ne_nil_of_mem hr)
    rw [← exploded_aclAfter_cons (covered_of_recorded hre)] at ha
    refine any_eq_false.1 hpr (.relation c) ho ?_
    rw [acls_fenced,hre,Bool.true_and,any_eq_true]
    refine ⟨g,ha,?_⟩
    rw [Bool.and_eq_true,any_eq_true]
    exact ⟨⟨role,hr,by simp [hgr]⟩,by simp [hp]⟩
  | default d =>
    have had := admits_of_mem_granted (mem_granted_of_mem_exploded hg)
    exact hne (of_decide_eq_true (Bool.and_eq_true_iff.1 had).2)

theorem not_grantable_of_roundTrips (ho : o ∈ db.objects) (hre : o.recorded)
    (hg : g ∈ exploded (acls o)) (hw : WriteGrant appRoles g) : g.grantable = false := by
  have how := grantor_eq_of_roundTrips hroles h ho hre hg hw
  obtain ⟨⟨role,hr,hgr⟩,hp⟩ := hw
  have hg := mem_granted_of_mem_exploded hg
  have ht := taken_of_writeGrant hg hgr hp how
  obtain ⟨before,after,rfl⟩ := append_of_mem hr
  obtain ⟨-,-,hb⟩ := fenced_of_roundTrips hroles h
  rcases hb o ho g ⟨role,hr,hgr⟩ hg with hl | ⟨r,q,-,rfl⟩
  · have hn : g ∉ exploded (aclAfter (before++role::after) o (acls o)) :=
      not_mem_exploded_of_taken (covered_of_recorded hre) ht (acls o)
    cases ha : aclAfter (before++role::after) o (acls o) <;> rw [ha] at hl hn
    · obtain ⟨q,-,rfl⟩ := eq_plain_of_mem_acldefault hl
      rfl
    · exact absurd hl hn
  · rfl

theorem unowned_of_roundTrips (hc : c ∈ db.relations) (hs : userSchemas c.schema)
    (hn : acls (.relation c) = none) : appRoles.head? ≠ some c.owner := by
  intro hh
  obtain ⟨rest,rfl⟩ : ∃ rest, appRoles = c.owner::rest := List.head?_eq_some_iff.1 hh
  have hu := update_mem_privileges (.relation c)
  have hg : plain c.owner c.owner .update ∈ granted (acls (.relation c)) := by
    rw [hn]
    exact mem_map.2 ⟨.update,hu,rfl⟩
  have ht : taken c.owner c.owner (Object.relation c).revoked (plain c.owner c.owner .update) :=
    taken_plain (mem_revoked.2 ⟨hu,by decide⟩)
  have hgo : ∀ roles, plain c.owner c.owner .update ∉
      granted (aclAfter (c.owner::roles) (.relation c) (acls (.relation c))) :=
    fun roles => @not_mem_aclAfter_of_taken (.relation c) _ _ _ [] roles hs ht
  obtain ⟨-,-,hb⟩ := fenced_of_roundTrips hroles h
  rcases hb (.relation c) (relation_mem_objects.2 hc) _ ⟨c.owner,mem_cons_self,rfl⟩ hg with
    hl | ⟨r,q,hr,heq⟩
  · exact hgo rest hl
  · obtain ⟨before,after,e,hsp,hre,hp⟩ := record_mem_rows (relation_mem_objects.2 hc) hr
    have he := hre.exploded
    cases before with
    | nil =>
      rw [show aclAfter [] (.relation c) (acls (.relation c)) = none from hn] at he
      cases he
    | cons b before =>
      obtain rfl : c.owner = b := (List.cons.inj hsp).1
      have he := mem_granted_of_mem_exploded he
      have hd := mem_granted_of_mem_aclAfter he
      rw [hn] at hd
      obtain ⟨p,-,rfl⟩ := eq_plain_of_mem_acldefault (o := .relation c) hd
      obtain rfl : .update = p := (congrArg Grant.privilege heq).trans hp.symm
      exact hgo before he

theorem matview_of_roundTrips (hc : c ∈ db.relations) (hs : userSchemas c.schema)
    (hk : c.kind = .matview) (hg : g ∈ granted (acls (.relation c))) (hw : WriteGrant appRoles g) :
    g.grantor ≠ c.owner := by
  intro ho
  obtain ⟨⟨role,hro,hgr⟩,hp⟩ := hw
  have ht := taken_of_writeGrant hg hgr hp ho
  obtain ⟨-,-,hb⟩ := fenced_of_roundTrips hroles h
  rcases hb (.relation c) (relation_mem_objects.2 hc) g ⟨role,hro,hgr⟩ hg with
    hl | ⟨r,q,hrw,-⟩
  · obtain ⟨before,after,rfl⟩ := append_of_mem hro
    have hr : reached (.relation c) (aclAfter before (.relation c) (acls (.relation c))) := hs
    exact not_mem_aclAfter_of_taken hr ht hl
  · obtain ⟨before,after,e,-,hre,-⟩ := record_mem_rows (relation_mem_objects.2 hc) hrw
    simpa [Object.recorded,hk] using hre.recorded

theorem apart_of_roundTrips (hsp : appRoles = before++role::after) (hrl : role ∉ before) {owner : Name}
    {schema : Option Name} (ho : .default ⟨owner,schema,false⟩ ∈ db.objects) :
    ¬(Stands acls before role ⟨owner,schema,false⟩ ∧ Stands acls before role ⟨owner,schema,true⟩) := by
  rintro ⟨hta,hs⟩
  obtain ⟨-,-,hb⟩ := fenced_of_roundTrips hroles h
  have hro : ∀ sequences, Stands acls before role ⟨owner,schema,sequences⟩ →
      record clusterId role .update (.default ⟨owner,schema,sequences⟩) ∈
        (fenced db clusterId appRoles (unfenced clusterId acls others)).rows := by
    intro sequences hst
    have htu := (exploded_aclAfter_default hrl rfl).2 hst
    have hr : reached (.default ⟨owner,schema,sequences⟩)
        (aclAfter before (.default ⟨owner,schema,sequences⟩) (acls (.default ⟨owner,schema,sequences⟩))) := by
      show Option.isSome _
      cases ha : aclAfter before (.default ⟨owner,schema,sequences⟩) (acls (.default ⟨owner,schema,sequences⟩)) with
      | none => rw [ha] at htu; cases htu
      | some b => rfl
    have ht : taken role owner (Object.default ⟨owner,schema,sequences⟩).revoked (plain role owner .update) :=
      taken_plain (mem_revoked.2 ⟨update_mem_privileges _,by decide⟩)
    rcases hb _ (default_mem_sibling sequences ho) _ ⟨role,by simp [hsp],rfl⟩ (mem_granted_of_mem_exploded hst.1) with
      hl | ⟨r,q,hro,heq⟩
    · rw [hsp] at hl
      exact absurd hl (not_mem_aclAfter_of_taken hr ht)
    · cases heq
      exact hro
  have hsta : ∀ x ∈ (unfenced clusterId acls others).rows, ∀ y ∈ (unfenced clusterId acls others).rows,
      x.key.clusterId = clusterId → x.key = y.key → x = y := by
    intro x hx y _ hid
    have hne : x.clusterId ≠ clusterId := by simpa using (mem_filter.1 hx).2
    exact absurd hid hne
  cases congrArg Row.relKind
    (unique_rows_fenced hsta _ (hro false hta) _ (hro true hs) rfl rfl)

end Necessary

section Sufficient
variable {db : Database} {clusterId : Text} {appRoles roles before after : List Name} {acls : Acls}
  {others : List Row} {o : Object} {g : Entry} {role : Name}

theorem shown_or_plain (hg : g ∈ granted (acls o)) :
    g ∈ exploded (acls o) ∨ ∃ p, g = plain o.owner o.owner p := by
  cases ha : acls o with
  | none =>
    rw [ha] at hg
    obtain ⟨p,-,rfl⟩ := eq_plain_of_mem_acldefault hg
    exact .inr ⟨p,rfl⟩
  | some a =>
    rw [ha] at hg
    exact .inl hg

/-- All the fence takes are the owner's plain grants on objects it writes down. -/
theorem eq_plain_of_taken (h : Restorable db acls appRoles) (ho : o ∈ db.objects) (hc : o.covered)
    (hr : role ∈ appRoles) (hg : g ∈ granted (acls o)) (ht : taken role o.owner o.revoked g) :
    o.recorded ∧ g = plain role o.owner g.privilege := by
  obtain ⟨hgr,hp,how⟩ := taken_iff.1 ht
  have hw : WriteGrant appRoles g := ⟨⟨role,hr,hgr⟩,(mem_revoked.1 hp).2⟩
  have hre : o.recorded := by
    cases o with
    | relation c =>
      refine Bool.and_eq_true_iff.2 ⟨hc,decide_eq_true fun hk => ?_⟩
      exact h.matview c (relation_mem_objects.1 ho) hc hk g hg hw how
    | default d => rfl
  have hgra : g.grantable = false := by
    rcases shown_or_plain hg with hs | ⟨p,rfl⟩
    · exact (h.plain o ho hre g hs hw).2
    · rfl
  refine ⟨hre,?_⟩
  cases g
  simp_all [plain]

theorem eq_plain_of_writeGrant (h : Restorable db acls appRoles) (ho : o ∈ db.objects)
    (hre : o.recorded) (hr : role ∈ appRoles) (hg : g ∈ granted (acls o))
    (hgr : g.grantee = some role) (hp : g.privilege ∈ fencedPrivileges) :
    taken role o.owner o.revoked g ∧ g = plain role o.owner g.privilege := by
  have how : g.grantor = o.owner := by
    rcases shown_or_plain hg with hs | ⟨p,rfl⟩
    · exact (h.plain o ho hre g hs ⟨⟨role,hr,hgr⟩,hp⟩).1
    · rfl
  have ht := taken_of_writeGrant hg hgr hp how
  exact ⟨ht,(eq_plain_of_taken h ho (covered_of_recorded hre) hr hg ht).2⟩

theorem withOption_not_mem (h : Restorable db acls appRoles) (ho : o ∈ db.objects) (hc : o.covered)
    (hr : role ∈ appRoles) {p : Privilege} (hp : p ∈ o.revoked) :
    withOption role o.owner p ∉ granted (acls o) := by
  intro hg
  cases (eq_plain_of_taken h ho hc hr hg (taken_iff.2 ⟨rfl,hp,rfl⟩)).2

theorem allowed_fenced (h : Restorable db acls appRoles) (hroles : ∀ role ∈ appRoles, role ∈ db.roles)
    (hr : role ∈ appRoles) :
    Allowed db (fenced db clusterId before (unfenced clusterId acls others)) role := by
  refine ⟨h.readable role hr,hroles role hr,fun c hc hs => ?_⟩
  rw [acls_fenced]
  refine blocked_eq_false fun p hp hm => ?_
  exact withOption_not_mem (o := .relation c) h (relation_mem_objects.2 hc) hs hr hp
    (mem_granted_of_mem_aclAfter hm)

theorem revocableGrants_fenced (h : Restorable db acls appRoles) (hsu : ∀ role ∈ appRoles, role ∈ roles) :
    revocableGrants db appRoles (fenced db clusterId roles (unfenced clusterId acls others)) = false := by
  refine any_eq_false.2 fun o ho hpr => ?_
  rw [acls_fenced,Bool.and_eq_true,any_eq_true] at hpr
  obtain ⟨hre,g,hg,hw⟩ := hpr
  obtain ⟨⟨role,hr,hgr⟩,hp⟩ : (∃ role ∈ appRoles, g.grantee = some role) ∧
      g.privilege ∈ fencedPrivileges := by simpa using hw
  have hs := mem_granted_of_mem_aclAfter (mem_granted_of_mem_exploded hg)
  have ht := (eq_plain_of_writeGrant h ho hre hr hs hgr hp).1
  obtain ⟨before,after,rfl⟩ := append_of_mem (hsu role hr)
  exact not_mem_exploded_of_taken (covered_of_recorded hre) ht (acls o) hg

theorem eq_or_of_first {before' after' : List Name} (hr : role ∉ before)
    (heq : before++role::after = before'++role::after') :
    before' = before ∨ ∃ rest, before' = before++role::rest := by
  rcases List.append_eq_append_iff.1 heq with ⟨l,rfl,hl⟩ | ⟨l,rfl,hl⟩
  · cases l with
    | nil => exact .inl (by simp)
    | cons x l => exact .inr ⟨l,by rw [(List.cons.inj hl).1]⟩
  · cases l with
    | nil => exact .inl (by simp)
    | cons x l => exact absurd (by simp [(List.cons.inj hl).1]) hr

theorem eq_update {d : DefaultKey} {p : Privilege} (hp : p ∈ (Object.default d).privileges)
    (hp' : p ∈ (Object.default {d with sequences := !d.sequences}).privileges)
    (hf : p ∈ fencedPrivileges) : p = .update := by
  have hb : ∀ q : Privilege, q ∈ [.select,.insert,.update,.delete,.truncate,.other] →
      q ∈ [.select,.update,.usage] → q ∈ fencedPrivileges → q = .update := by
    intro q
    cases q <;> decide
  obtain ⟨owner,schema,sequences⟩ := d
  cases sequences with
  | false => exact hb p hp hp' hf
  | true => exact hb p hp' hp hf

theorem record_mem_of_recorded (h : Restorable db acls appRoles) (hsu : ∀ role ∈ roles, role ∈ appRoles)
    (hsp : appRoles = before++role::after) (hf : role ∉ before) {rest : List Name}
    (hroles : roles = before++role::rest) (hr : Recorded db acls before role o g) :
    record clusterId role g.privilege o ∈
      (fenced db clusterId roles (unfenced clusterId acls others)).rows := by
  obtain ⟨row,hro,hk⟩ : ∃ row ∈ (fenced db clusterId roles (unfenced clusterId acls others)).rows,
      row.key = (record clusterId role g.privilege o).key := exists_row_of_recorded hroles hr
  rcases recorded_of_mem_fenced hro with hold | ⟨before',r,after',o',g',hs',hr',rfl⟩
  · have hne : row.clusterId ≠ clusterId := by simpa using (mem_filter.1 hold).2
    have hid : row.clusterId = clusterId := by
      rw [show row.clusterId = row.key.clusterId from rfl,hk]
      cases o <;> rfl
    exact absurd hid hne
  obtain ⟨rfl,hpr,rfl | ⟨owner,schema,sequences,rfl,rfl⟩⟩ :=
    eq_or_sibling_of_key hr'.object hr.object hk
  · rwa [hpr] at hro
  -- the sibling's row would be in the way, but the two defaults are apart
  exfalso
  have hfo : ∀ {before : List Name} {b : Bool} {e : Entry},
      Recorded db acls before r (.default ⟨owner,schema,b⟩) e →
        taken r owner (Object.default ⟨owner,schema,b⟩).revoked e ∧ e = plain r owner e.privilege :=
    fun he => eq_plain_of_writeGrant h he.object he.recorded (hsu r (by simp [hroles]))
      (mem_granted_of_mem_aclAfter (mem_granted_of_mem_exploded he.exploded)) he.grantee he.privilege
  have hst : ∀ {b : Bool} {e : Entry}, Recorded db acls before r (.default ⟨owner,schema,b⟩) e →
      e.privilege = .update → Stands acls before r ⟨owner,schema,b⟩ := by
    intro b e he hu
    have hexp := he.exploded
    rw [(hfo he).2,hu] at hexp
    exact (exploded_aclAfter_default hf rfl).1 hexp
  have hu : g'.privilege = .update := by
    have hp := mem_privileges_of_mem_granted (mem_granted_of_mem_exploded hr.exploded)
    have hp' := mem_privileges_of_mem_granted (mem_granted_of_mem_exploded hr'.exploded)
    exact eq_update hp' (hpr ▸ hp) hr'.privilege
  obtain rfl : before' = before := by
    rcases eq_or_of_first hf (hroles.symm.trans hs') with heq | ⟨rest',rfl⟩
    · exact heq
    · exact absurd hr'.exploded (not_mem_exploded_of_taken rfl (hfo hr').1 _)
  have ht := hst hr (hpr ▸ hu)
  have hs := hst hr' hu
  have ha := h.apart before' r after hsp hf owner schema
    (default_mem_sibling false hr.object)
  cases sequences with
  | false => exact ha ⟨hs,ht⟩
  | true => exact ha ⟨ht,hs⟩

/-- An entry in force that the fence takes is written down, or is in force without an ACL all along. -/
theorem recorded_or_granted (h : Restorable db acls appRoles) (ho : o ∈ db.objects) (hc : o.covered)
    (hs : appRoles = before++role::after) (hf : role ∉ before) (hg : g ∈ granted (acls o))
    (ht : taken role o.owner o.revoked g) (rest : List Name) :
    Recorded db acls before role o g ∨ g ∈ granted (aclAfter (before++role::rest) o (acls o)) := by
  obtain ⟨hgr,hp,-⟩ := taken_iff.1 ht
  by_cases he : g ∈ exploded (aclAfter before o (acls o))
  · have hre := (eq_plain_of_taken h ho hc (by simp [hs]) hg ht).1
    exact .inl ⟨ho,hre,he,hgr,(mem_revoked.1 hp).2⟩
  have hk : g ∈ granted (aclAfter before o (acls o)) := by
    refine mem_granted_aclAfter_of_kept hg fun r hr => ?_
    have hne : role ≠ r := fun heq => hf (heq ▸ hr)
    simp [taken,hgr,hne]
  cases ha : aclAfter before o (acls o) with
  | some b =>
    rw [ha] at he hk
    exact absurd hk he
  | none =>
    cases o with
    | relation c =>
      exfalso
      cases before with
      | nil =>
        have hn : acls (.relation c) = none := ha
        rw [hn] at hg
        obtain ⟨p,-,rfl⟩ := eq_plain_of_mem_acldefault (o := .relation c) hg
        refine h.unowned c (relation_mem_objects.1 ho) hc hn ?_
        rw [hs]
        exact hgr.symm
      | cons b before =>
        rw [exploded_aclAfter_cons hc] at he
        exact he hk
    | default d =>
      right
      rw [aclAfter_append,ha,aclAfter_of_not_reached rfl]
      rwa [ha] at hk

/-- Every entry is as it was. -/
theorem granted_lifted (h : Restorable db acls appRoles) (hsu : ∀ role ∈ roles, role ∈ appRoles)
    {more : List Name} (hroles : roles = appRoles++more) (ho : o ∈ db.objects) :
    (g ∈ granted (aclAfter roles o (acls o)) ∨ ∃ role p,
      record clusterId role p o ∈ (fenced db clusterId roles (unfenced clusterId acls others)).rows ∧
        g = plain role o.owner p ∧ withOption role o.owner p ∉ granted (aclAfter roles o (acls o))) ↔
      g ∈ granted (acls o) := by
  refine ⟨?_,fun hg => ?_⟩
  · rintro (hl | ⟨role,p,hro,rfl,-⟩)
    · exact mem_granted_of_mem_aclAfter hl
    · obtain ⟨before,after,e,hs,hre,rfl⟩ := record_mem_rows ho hro
      have hst := mem_granted_of_mem_aclAfter (mem_granted_of_mem_exploded hre.exploded)
      rwa [← (eq_plain_of_writeGrant h ho hre.recorded (hsu role (by simp [hs])) hst
        hre.grantee hre.privilege).2]
  · cases hc : o.covered with
    | false =>
      rw [aclAfter_of_not_reached (not_reached_of_not_covered hc (acls o))]
      exact .inl hg
    | true =>
      by_cases ha : ∃ role ∈ appRoles, taken role o.owner o.revoked g
      · obtain ⟨role,hr,ht⟩ := ha
        obtain ⟨before,after,hs,hf⟩ := eq_append_cons_of_mem hr
        have hs' : roles = before++role::(after++more) := by simp [hroles,hs]
        rcases recorded_or_granted h ho hc hs hf hg ht (after++more) with hre | hl
        · refine .inr ⟨role,g.privilege,record_mem_of_recorded h hsu hs hf hs' hre,
            (eq_plain_of_taken h ho hc hr hg ht).2,fun hop => ?_⟩
          exact withOption_not_mem h ho hc hr (taken_iff.1 ht).2.1 (mem_granted_of_mem_aclAfter hop)
        · exact .inl (hs' ▸ hl)
      · refine .inl (mem_granted_aclAfter_of_kept hg fun role hr => ?_)
        rw [← Bool.not_eq_true]
        exact fun ht => ha ⟨role,hsu role hr,ht⟩

theorem roundTrips_of_restorable (hroles : ∀ role ∈ appRoles, role ∈ db.roles)
    (h : Restorable db acls appRoles) : RoundTrips db clusterId appRoles (unfenced clusterId acls others) := by
  intro n
  have hf : (List.replicate (n+1) appRoles).flatten = appRoles++(List.replicate n appRoles).flatten := by
    rw [replicate_succ,flatten_cons]
  have hs : ∀ role ∈ (List.replicate (n+1) appRoles).flatten, role ∈ appRoles := by simp
  have hru : applyTimes db clusterId appRoles (n+1) (unfenced clusterId acls others) =
      some (fenced db clusterId (List.replicate (n+1) appRoles).flatten (unfenced clusterId acls others)) := by
    rw [applyTimes_eq_run]
    refine run_applyRole fun before role after heq => ?_
    exact allowed_fenced h hroles (hs role (by simp [heq]))
  obtain ⟨u,hu,hr,hl⟩ := liftSql_fenced clusterId acls others fun role hro =>
    hroles role (hs role hro)
  refine ⟨_,hru,revocableGrants_fenced h fun _ => hf ▸ mem_append_left _,u,hu,fun o ho g _ => ?_,hr⟩
  rw [hl o ho g]
  exact granted_lifted h hs hf ho

/-- The lift undoes the fence exactly when the fence can bring back what it takes. -/
theorem roundTrips_iff (clusterId : Text) (acls : Acls) (others : List Row)
    (hroles : ∀ role ∈ appRoles, isValidPgRoleName role = true ∧ role ∈ db.roles) :
    RoundTrips db clusterId appRoles (unfenced clusterId acls others) ↔ Restorable db acls appRoles := by
  have he : ∀ role ∈ appRoles, role ∈ db.roles := fun role hr => (hroles role hr).2
  refine ⟨fun h => ?_,roundTrips_of_restorable he⟩
  exact ⟨(fenced_of_roundTrips he h).1,fun o ho hre g hg hw =>
      ⟨grantor_eq_of_roundTrips he h ho hre hg hw,not_grantable_of_roundTrips he h ho hre hg hw⟩,
    fun c hc hs hn => unowned_of_roundTrips he h hc hs hn,
    fun c hc hs hk g hg hw => matview_of_roundTrips he h hc hs hk hg hw,
    fun before role after hsp hf owner schema ho => apart_of_roundTrips he h hsp hf ho⟩

end Sufficient

section Sample

def sampleOwner : Name := "own".toList

def sampleApp : Name := "app".toList

def sampleTable : Class := ⟨"public".toList,"t".toList,sampleOwner,.rel .table⟩

def sampleDatabase (role : Name) : Database where
  roles := [sampleOwner,role]
  hasPrivsOfRole := fun _ _ => false
  namespaces := ["public".toList]
  relations := [sampleTable]
  named := by simp
  namespace_ne := by decide

def only (o : Object) (a : Acl o) : Acls := Function.update (fun _ => none) o (some a)

theorem exploded_only {o o' : Object} {a : Acl o} {g : Entry} (h : g ∈ exploded (only o a o')) :
    o' = o ∧ g ∈ a.items := by
  by_cases heq : o' = o
  · subst heq
    rw [only,Function.update_self] at h
    exact ⟨rfl,h⟩
  · rw [only,Function.update_of_ne heq] at h
    cases h

def sampleAcl (grantable : Bool) : Acl (.relation sampleTable) :=
  ⟨[⟨some sampleApp,.insert,sampleOwner,grantable⟩],by cases grantable <;> decide⟩

/-- A plain grant of the owner's comes back. -/
theorem roundTrips_plain : RoundTrips (sampleDatabase sampleApp) "c".toList [sampleApp]
    (unfenced "c".toList (only (.relation sampleTable) (sampleAcl false)) []) := by
  have hroles : ∀ role ∈ [sampleApp],
      isValidPgRoleName role ∧ role ∈ (sampleDatabase sampleApp).roles := by decide
  refine (roundTrips_iff "c".toList (only (.relation sampleTable) (sampleAcl false)) [] hroles).2
    ⟨by decide,?_,?_,?_,?_⟩
  · intro o _ _ g hg _
    obtain ⟨rfl,hm⟩ := exploded_only hg
    rw [mem_singleton.1 hm]
    exact ⟨rfl,rfl⟩
  · intro c hc _ hn
    rw [mem_singleton.1 hc,only,Function.update_self] at hn
    cases hn
  · intro c hc _ hk
    rw [mem_singleton.1 hc] at hk
    cases hk
  · rintro before role after - - owner schema - ⟨⟨hs,-⟩,-⟩
    cases (exploded_only hs).1

def tablesDefault : DefaultKey := ⟨sampleOwner,none,false⟩

def sequencesDefault : DefaultKey := ⟨sampleOwner,none,true⟩

def updateDefaults : Acls :=
  Function.update (only (.default tablesDefault) ⟨[plain sampleApp sampleOwner .update],by decide⟩)
    (.default sequencesDefault) (some ⟨[plain sampleApp sampleOwner .update],by decide⟩)

/-- One of the two defaults, a grant option, and every grant of a role with `$$` in its name are lost. -/
theorem fence_not_undone :
    ¬RoundTrips (sampleDatabase sampleApp) "c".toList [sampleApp] (unfenced "c".toList updateDefaults []) ∧
    ¬RoundTrips (sampleDatabase sampleApp) "c".toList [sampleApp]
      (unfenced "c".toList (only (.relation sampleTable) (sampleAcl true)) []) ∧
    (isValidPgRoleName "a$$b".toList = true ∧
      ¬RoundTrips (sampleDatabase "a$$b".toList) "c".toList ["a$$b".toList]
        (unfenced "c".toList (fun _ => none) [])) := by
  have hroles : ∀ role ∈ [sampleApp], role ∈ (sampleDatabase sampleApp).roles := by decide
  refine ⟨fun h => ?_,fun h => ?_,by decide,fun h => ?_⟩
  · have ha : [sampleApp] = []++sampleApp::[] := rfl
    have ho : .default tablesDefault ∈ (sampleDatabase sampleApp).objects := by decide
    have ht : Stands updateDefaults [] sampleApp tablesDefault := ⟨by decide,rfl⟩
    have hs : Stands updateDefaults [] sampleApp sequencesDefault := ⟨by decide,rfl⟩
    exact apart_of_roundTrips hroles h ha not_mem_nil ho ⟨ht,hs⟩
  · have ho : .relation sampleTable ∈ (sampleDatabase sampleApp).objects := by decide
    have hg : withOption sampleApp sampleOwner .insert ∈
        exploded (only (.relation sampleTable) (sampleAcl true) (.relation sampleTable)) := by decide
    have hw : WriteGrant [sampleApp] (withOption sampleApp sampleOwner .insert) :=
      ⟨⟨sampleApp,mem_singleton_self _,rfl⟩,by decide⟩
    have hp := not_grantable_of_roundTrips hroles h ho (by decide) hg hw
    cases hp
  · have he : ∀ role ∈ ["a$$b".toList], role ∈ (sampleDatabase "a$$b".toList).roles := by decide
    have hr := (fenced_of_roundTrips he h).1 _ (mem_singleton_self _)
    revert hr
    decide

end Sample

end FenceLift
end PgBattery
