import Mathlib

/-! Access control lists whose entries name their grantor and may carry the grant option, and the
GRANT and REVOKE of an owner on them. -/
namespace PgBattery
namespace Grants
open List

/-- An entry; no grantee is everybody. -/
structure Grant (R P : Type) where
  grantee : Option R
  privilege : P
  grantor : R
  grantable : Bool
  deriving DecidableEq

variable {R P : Type}

def plain (role owner : R) (p : P) : Grant R P := ⟨some role,p,owner,false⟩

def withOption (role owner : R) (p : P) : Grant R P := ⟨some role,p,owner,true⟩

variable [DecidableEq R] [DecidableEq P]

/-- What the owner's `REVOKE ps FROM role` takes. -/
def taken (role owner : R) (ps : List P) (g : Grant R P) : Bool :=
  g.grantee = some role && g.privilege ∈ ps && g.grantor = owner

def revoke (role owner : R) (ps : List P) (items : List (Grant R P)) : List (Grant R P) :=
  items.filter fun g => !taken role owner ps g

/-- The owner's `GRANT p TO role`, which takes no grant option away. -/
def give (role owner : R) (p : P) (items : List (Grant R P)) : List (Grant R P) :=
  if withOption role owner p ∈ items then items else items.insert (plain role owner p)

/-- A REVOKE without CASCADE is refused while a grant stands on a grant option it takes. `inherits`
says whose privileges a role has. -/
def blocked (inherits : R → R → Bool) (role owner : R) (ps : List P) (items : List (Grant R P)) : Bool :=
  role ≠ owner && ps.any fun p =>
    withOption role owner p ∈ items && items.any (fun g => g.grantor = role && g.privilege = p) &&
      !(revoke role owner ps items).any fun g =>
        g.grantable && g.privilege = p && g.grantee.any fun r => r = role || inherits role r

def same (l m : List (Grant R P)) : Bool := l.all (· ∈ m) && m.all (· ∈ l)

variable {role owner : R} {ps : List P} {items : List (Grant R P)}

theorem taken_iff {g : Grant R P} :
    taken role owner ps g ↔ g.grantee = some role ∧ g.privilege ∈ ps ∧ g.grantor = owner := by
  simp [taken,and_assoc]

theorem taken_plain {p : P} (hp : p ∈ ps) :
    taken role owner ps (plain role owner p) := taken_iff.2 ⟨rfl,hp,rfl⟩

theorem mem_revoke {g : Grant R P} :
    g ∈ revoke role owner ps items ↔ g ∈ items ∧ taken role owner ps g = false := by
  simp [revoke]

theorem revoke_eq_self (h : ∀ g ∈ items, g.grantee ≠ some role) :
    revoke role owner ps items = items := by
  refine filter_eq_self.2 fun g hg => ?_
  simp [taken,h g hg]

theorem mem_give {p : P} {g : Grant R P} :
    g ∈ give role owner p items ↔
      g ∈ items ∨ g = plain role owner p ∧ withOption role owner p ∉ items := by
  rw [give]
  split
  · next h => simp [h]
  · next h => simp [h,or_comm]

theorem same_iff {l m : List (Grant R P)} : same l m ↔ ∀ g, g ∈ l ↔ g ∈ m := by
  simp only [same,Bool.and_eq_true,all_eq_true,decide_eq_true_eq]
  exact ⟨fun h g => ⟨h.1 g,h.2 g⟩,fun h => ⟨fun g => (h g).1,fun g => (h g).2⟩⟩

theorem blocked_eq_false {inherits : R → R → Bool} (h : ∀ p ∈ ps, withOption role owner p ∉ items) :
    blocked inherits role owner ps items = false := by
  rw [blocked,Bool.and_eq_false_iff]
  right
  refine any_eq_false.2 fun p hp => ?_
  simp [h p hp]

end Grants
end PgBattery
