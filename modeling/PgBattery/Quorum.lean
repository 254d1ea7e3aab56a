import Mathlib

/-! Strict majorities of finite sets and how they meet. -/
namespace PgBattery
namespace Quorum
variable {N : Type*} [DecidableEq N] {voters s t : Finset N}

/-- More than half of the voters are in the set. -/
def Majority (voters s : Finset N) : Prop := voters.card < 2*(voters ∩ s).card

instance : Decidable (Majority voters s) := inferInstanceAs (Decidable (_ < _))

theorem Majority.mono (h : Majority voters s) (hst : voters ∩ s ⊆ t) : Majority voters t := by
  have hle : (voters ∩ s).card ≤ (voters ∩ t).card := by
    apply Finset.card_le_card
    intro a ha
    exact Finset.mem_inter.2 ⟨(Finset.mem_inter.1 ha).1,hst ha⟩
  unfold Majority at h ⊢
  omega

theorem exists_common (h : voters.card < (voters ∩ s).card+(voters ∩ t).card) :
    ∃ a ∈ voters, a ∈ s ∧ a ∈ t := by
  by_contra hno
  push Not at hno
  have hd : Disjoint (voters ∩ s) (voters ∩ t) := by
    rw [Finset.disjoint_left]
    intro a hs ht
    rw [Finset.mem_inter] at hs ht
    exact hno a hs.1 hs.2 ht.2
  have hsu : (voters ∩ s) ∪ (voters ∩ t) ⊆ voters :=
    Finset.union_subset Finset.inter_subset_left Finset.inter_subset_left
  have hc := Finset.card_le_card hsu
  rw [Finset.card_union_of_disjoint hd] at hc
  omega

theorem Majority.exists_common (hs : Majority voters s) (ht : Majority voters t) :
    ∃ a ∈ voters, a ∈ s ∧ a ∈ t := by
  apply Quorum.exists_common
  unfold Majority at hs ht
  omega

end Quorum
end PgBattery
