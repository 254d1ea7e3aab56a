import Mathlib

/-! What a list of edges reaches from a list of points, computed round by round. As many rounds as
there are edges are enough. -/
namespace PgBattery
namespace Reachability
open List
variable {α : Type*} [DecidableEq α]

def next (edges : List (α × α)) (known : List α) : List α :=
  known++(edges.filter fun e => e.1 ∈ known && e.2 ∉ known).map Prod.snd

def closure (edges : List (α × α)) (known : List α) : List α := (next edges)^[edges.length] known

variable {edges : List (α × α)} {known : List α} {a b : α}

theorem mem_next : b ∈ next edges known ↔ b ∈ known ∨ ∃ a ∈ known, (a,b) ∈ edges := by
  by_cases hb : b ∈ known
  · simp [next,hb]
  · simp [next,hb,and_comm]

def Closed (edges : List (α × α)) (known : List α) : Prop := ∀ e ∈ edges, e.1 ∈ known → e.2 ∈ known

theorem next_eq_self (h : Closed edges known) : next edges known = known := by
  have hn : (edges.filter fun e => e.1 ∈ known && e.2 ∉ known) = [] := by
    refine filter_eq_nil_iff.2 fun e he hl => ?_
    simp only [Bool.and_eq_true,decide_eq_true_eq] at hl
    exact hl.2 (h e he hl.1)
  rw [next,hn,map_nil,append_nil]

def unknown (edges : List (α × α)) (known : List α) : Finset α :=
  (edges.map Prod.snd).toFinset \ known.toFinset

theorem unknown_next_lt (h : ¬Closed edges known) :
    (unknown edges (next edges known)).card < (unknown edges known).card := by
  simp only [Closed,not_forall] at h
  obtain ⟨e,he,hf,hto⟩ := h
  refine Finset.card_lt_card (Finset.ssubset_iff_of_subset ?_ |>.2 ⟨e.2,?_,?_⟩)
  · refine Finset.sdiff_subset_sdiff (Finset.Subset.refl _) fun b hb => ?_
    exact mem_toFinset.2 (mem_next.2 (.inl (mem_toFinset.1 hb)))
  · simp only [unknown,Finset.mem_sdiff,mem_toFinset]
    exact ⟨mem_map_of_mem he,hto⟩
  · simp only [unknown,Finset.mem_sdiff,mem_toFinset,not_and,not_not]
    exact fun _ => mem_next.2 (.inr ⟨e.1,hf,he⟩)

/-- A round that changes nothing is the last; any other leaves fewer ends to find. -/
theorem closed_iterate (n : ℕ) (h : (unknown edges known).card ≤ n) :
    Closed edges ((next edges)^[n] known) := by
  induction n generalizing known with
  | zero =>
    intro e he _
    by_contra hto
    have hm : e.2 ∈ unknown edges known := by
      simp only [unknown,Finset.mem_sdiff,mem_toFinset]
      exact ⟨mem_map_of_mem he,hto⟩
    exact (Finset.card_pos.2 ⟨_,hm⟩).ne' (Nat.le_zero.1 h)
  | succ n ih =>
    by_cases hc : Closed edges known
    · rwa [Function.iterate_fixed (next_eq_self hc)]
    · exact ih (Nat.le_of_lt_succ ((unknown_next_lt hc).trans_le h))

theorem closed_closure : Closed edges (closure edges known) := by
  refine closed_iterate _ ((Finset.card_le_card Finset.sdiff_subset).trans ?_)
  exact (toFinset_card_le _).trans (length_map ..).le

theorem subset_closure : known ⊆ closure edges known := by
  have hr : ∀ n, known ⊆ (next edges)^[n] known := by
    intro n
    induction n with
    | zero => exact List.Subset.refl _
    | succ n ih =>
      rw [Function.iterate_succ_apply']
      exact fun b hb => mem_next.2 (.inl (ih hb))
  exact hr _

theorem mem_closure : b ∈ closure edges known ↔
    ∃ a ∈ known, Relation.ReflTransGen (fun x y => (x,y) ∈ edges) a b := by
  constructor
  · have hr : ∀ n, ∀ b ∈ (next edges)^[n] known,
        ∃ a ∈ known, Relation.ReflTransGen (fun x y => (x,y) ∈ edges) a b := by
      intro n
      induction n with
      | zero => exact fun b hb => ⟨b,hb,Relation.ReflTransGen.refl⟩
      | succ n ih =>
        intro b hb
        rw [Function.iterate_succ_apply'] at hb
        rcases mem_next.1 hb with hb | ⟨x,hx,he⟩
        · exact ih b hb
        · obtain ⟨a,ha,hax⟩ := ih x hx
          exact ⟨a,ha,hax.tail he⟩
    exact hr _ b
  · rintro ⟨a,ha,hab⟩
    induction hab with
    | refl => exact subset_closure ha
    | tail _ he ih => exact closed_closure _ he ih

theorem mem_closure_succ (hb : b ∈ closure edges [a]) (hne : b ≠ a) :
    b ∈ closure edges ((edges.filter fun e => e.1 = a).map Prod.snd) := by
  obtain ⟨x,hx,hxb⟩ := mem_closure.1 hb
  obtain rfl := mem_singleton.1 hx
  rcases Relation.ReflTransGen.cases_head hxb with heq | ⟨y,he,hyb⟩
  · exact absurd heq.symm hne
  · refine mem_closure.2 ⟨y,mem_map.2 ⟨(x,y),?_,rfl⟩,hyb⟩
    exact mem_filter.2 ⟨he,decide_eq_true rfl⟩

theorem exists_edge_of_mem_closure (hb : b ∈ closure edges [a]) (hne : b ≠ a) : ∃ x, (x,b) ∈ edges := by
  obtain ⟨y,hy,hyb⟩ := mem_closure.1 hb
  obtain rfl := mem_singleton.1 hy
  rcases Relation.ReflTransGen.cases_tail hyb with heq | ⟨x,_,he⟩
  · exact absurd heq hne
  · exact ⟨x,he⟩

end Reachability
end PgBattery
