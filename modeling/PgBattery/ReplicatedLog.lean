import Mathlib

/-! A replicated log under changing leaders, over arbitrary nodes and entries. Every node holds a log,
the leader elected last decides what is committed, and each node applies committed entries of its own
log in order. A new leader holds what is committed; beyond that a log may be any. -/
namespace PgBattery
namespace ReplicatedLog
open List
variable {ν ε : Type*}

structure Replicas (ν ε : Type*) where
  log : ν → List ε
  committed : List ε := []
  /-- How many committed entries the node has applied. -/
  applied : ν → ℕ
  /-- The leader elected last. -/
  leader : ν
  /-- The nodes that take themselves for the leader. -/
  leads : ν → Bool

/-- What a node has applied. -/
def Replicas.view (r : Replicas ν ε) (n : ν) : List ε := r.committed.take (r.applied n)

inductive Change (ν : Type*)
  | elect (n : ν)
  | stepDown (n : ν)
  | replicate (n : ν) (length : ℕ)
  | commit (length : ℕ)
  | apply (n : ν)
  deriving DecidableEq

section Step
variable [DecidableEq ν] [DecidableEq ε]

def Replicas.change (r : Replicas ν ε) : Change ν → Option (Replicas ν ε)
  | .elect n =>
    if r.committed <+: r.log n then
      some {r with leader := n, leads := Function.update r.leads n true}
    else none
  | .stepDown n => some {r with leads := Function.update r.leads n false}
  | .replicate n length =>
    if n ≠ r.leader ∧ r.applied n ≤ length then
      some {r with log := Function.update r.log n ((r.log r.leader).take length)}
    else none
  | .commit length =>
    if r.committed.length ≤ length ∧ length ≤ (r.log r.leader).length then
      some {r with committed := (r.log r.leader).take length}
    else none
  | .apply n =>
    if r.applied n < r.committed.length ∧ r.committed.take (r.applied n+1) <+: r.log n then
      some {r with applied := Function.update r.applied n (r.applied n+1)}
    else none

/-- A node appends only while it takes itself for the leader. -/
def Replicas.append (r : Replicas ν ε) (n : ν) (e : ε) : Option (Replicas ν ε) :=
  if r.leads n then some {r with log := Function.update r.log n (r.log n++[e])} else none

end Step

/-- The leader has all that is committed, and a node all that it has applied. -/
structure WellFormed (r : Replicas ν ε) : Prop where
  leader : r.committed <+: r.log r.leader
  applied_le : ∀ n, r.applied n ≤ r.committed.length
  view : ∀ n, r.view n <+: r.log n

section Rules
variable [DecidableEq ν] [DecidableEq ε] {r s : Replicas ν ε} {c : Change ν} {P : List ε → Prop}

/-- All that a change can do to the logs: one node takes over the beginning of another's. -/
theorem log_change (h : r.change c = some s) (m : ν) : s.log m = r.log m ∨
    m ≠ r.leader ∧ ∃ length, r.applied m ≤ length ∧ s.log m = (r.log r.leader).take length := by
  cases c with
  | replicate n length =>
    obtain ⟨⟨hn,hle⟩,⟨⟩⟩ := Option.ite_none_right_eq_some.1 h
    by_cases hm : m = n
    · subst hm
      exact .inr ⟨hn,length,hle,Function.update_self ..⟩
    · exact .inl (Function.update_of_ne hm ..)
  | stepDown n =>
    cases h
    exact .inl rfl
  | _ =>
    obtain ⟨_,⟨⟩⟩ := Option.ite_none_right_eq_some.1 h
    exact .inl rfl

theorem committed_change (hr : WellFormed r) (h : r.change c = some s) :
    r.committed <+: s.committed := by
  cases c with
  | commit length =>
    obtain ⟨hle,⟨⟩⟩ := Option.ite_none_right_eq_some.1 h
    exact List.prefix_take_iff.2 ⟨hr.leader,hle.1⟩
  | stepDown n =>
    cases h
    exact prefix_rfl
  | _ =>
    obtain ⟨_,⟨⟩⟩ := Option.ite_none_right_eq_some.1 h
    exact prefix_rfl

theorem applied_change (h : r.change c = some s) (m : ν) : s.applied m = r.applied m ∨
    s.applied m = r.applied m+1 ∧ s.committed = r.committed ∧ s.log = r.log ∧
      r.applied m < r.committed.length ∧ r.committed.take (r.applied m+1) <+: r.log m := by
  cases c with
  | apply n =>
    obtain ⟨hn,⟨⟩⟩ := Option.ite_none_right_eq_some.1 h
    by_cases hm : m = n
    · subst hm
      exact .inr ⟨Function.update_self ..,rfl,rfl,hn⟩
    · exact .inl (Function.update_of_ne hm ..)
  | stepDown n =>
    cases h
    exact .inl rfl
  | _ =>
    obtain ⟨_,⟨⟩⟩ := Option.ite_none_right_eq_some.1 h
    exact .inl rfl

theorem view_change (hr : WellFormed r) (h : r.change c = some s) (m : ν) : r.view m <+: s.view m := by
  have hc := committed_change hr h
  have ht : r.view m = s.committed.take (r.applied m) := by
    obtain ⟨rest,hre⟩ := hc
    rw [Replicas.view,← hre,take_append_of_le_length (hr.applied_le m)]
  rw [ht,Replicas.view]
  rcases applied_change h m with heq | ⟨heq,_⟩
  · rw [heq]
  · rw [heq]
    exact take_prefix_take_left (Nat.le_succ _)

theorem wellFormed_change (hr : WellFormed r) (h : r.change c = some s) : WellFormed s := by
  have hc := committed_change hr h
  refine ⟨?_,fun m => ?_,fun m => ?_⟩
  · cases c with
    | elect n =>
      obtain ⟨hn,⟨⟩⟩ := Option.ite_none_right_eq_some.1 h
      exact hn
    | stepDown n =>
      cases h
      exact hr.leader
    | replicate n length =>
      obtain ⟨⟨hn,_⟩,⟨⟩⟩ := Option.ite_none_right_eq_some.1 h
      dsimp only
      rw [Function.update_of_ne hn.symm]
      exact hr.leader
    | commit length =>
      obtain ⟨_,⟨⟩⟩ := Option.ite_none_right_eq_some.1 h
      exact take_prefix _ _
    | apply n =>
      obtain ⟨_,⟨⟩⟩ := Option.ite_none_right_eq_some.1 h
      exact hr.leader
  · rcases applied_change h m with heq | ⟨heq,hs,_,hlt,_⟩
    · rw [heq]
      exact (hr.applied_le m).trans hc.length_le
    · rw [heq,hs]
      exact hlt
  · rcases applied_change h m with heq | ⟨heq,hs,hl,hlt,hp⟩
    · have ht : s.view m = r.view m := by
        obtain ⟨rest,hre⟩ := hc
        rw [Replicas.view,heq,← hre,take_append_of_le_length (hr.applied_le m)]
        rfl
      rw [ht]
      rcases log_change h m with hl | ⟨_,length,hle,hl⟩
      · rw [hl]
        exact hr.view m
      · rw [hl]
        refine List.prefix_take_iff.2 ⟨(List.take_prefix _ _).trans hr.leader,?_⟩
        exact (length_take_le _ _).trans hle
    · rw [Replicas.view,heq,hs,hl]
      exact hp

theorem forall_log_change (hP : ∀ l l', l' <+: l → P l → P l') (hl : ∀ m, P (r.log m))
    (h : r.change c = some s) (m : ν) : P (s.log m) := by
  rcases log_change h m with heq | ⟨_,length,_,heq⟩
  · rw [heq]
    exact hl m
  · rw [heq]
    exact hP _ _ (List.take_prefix _ _) (hl _)

end Rules

section Append
variable [DecidableEq ν] {r s : Replicas ν ε} {n : ν} {e : ε} {P : List ε → Prop}

theorem wellFormed_append (hr : WellFormed r) (h : r.append n e = some s) : WellFormed s := by
  obtain ⟨_,⟨⟩⟩ := Option.ite_none_right_eq_some.1 h
  have hg : ∀ m, r.log m <+: Function.update r.log n (r.log n++[e]) m := by
    intro m
    by_cases hm : m = n
    · subst hm
      rw [Function.update_self]
      exact prefix_append _ _
    · rw [Function.update_of_ne hm]
  exact ⟨hr.leader.trans (hg _),hr.applied_le,fun m => (hr.view m).trans (hg m)⟩

theorem forall_log_append (hl : ∀ m, P (r.log m)) (hn : P (r.log n++[e]))
    (h : r.append n e = some s) (m : ν) : P (s.log m) := by
  obtain ⟨_,⟨⟩⟩ := Option.ite_none_right_eq_some.1 h
  dsimp only
  by_cases hm : m = n
  · subst hm
    rw [Function.update_self]
    exact hn
  · rw [Function.update_of_ne hm]
    exact hl m

theorem view_append (h : r.append n e = some s) (m : ν) : s.view m = r.view m := by
  obtain ⟨_,⟨⟩⟩ := Option.ite_none_right_eq_some.1 h
  rfl

end Append

end ReplicatedLog
end PgBattery
