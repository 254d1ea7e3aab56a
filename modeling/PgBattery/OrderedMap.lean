import Mathlib

/-! Ordered maps with bulk removal and range listing, as an embedded key-value table offers them. -/
namespace PgBattery
namespace OrderedMap
open Std List
variable {α β : Type*} [Ord α] [TransOrd α]

def eraseAll (m : ExtTreeMap α β) (keys : List α) : ExtTreeMap α β :=
  keys.foldl (fun m a => m.erase a) m

/-- Keep the entries whose key satisfies `p`. -/
def retain (m : ExtTreeMap α β) (p : α → Bool) : ExtTreeMap α β :=
  eraseAll m (m.keys.filter fun a => !p a)

/-- The entries whose key satisfies `p`, in key order. -/
def entriesWhere (m : ExtTreeMap α β) (p : α → Bool) : List (α × β) :=
  m.toList.filter fun e => p e.1

@[simp] theorem eraseAll_nil (m : ExtTreeMap α β) : eraseAll m [] = m := rfl

theorem eraseAll_cons (m : ExtTreeMap α β) (a : α) (keys : List α) :
    eraseAll m (a::keys) = eraseAll (m.erase a) keys := rfl

theorem entriesWhere_sorted (m : ExtTreeMap α β) (p : α → Bool) :
    (entriesWhere m p).Pairwise fun a b => compare a.1 b.1 = .lt :=
  ExtTreeMap.ordered_keys_toList.filter _

theorem mem_iff_getElem?_ne_none (m : ExtTreeMap α β) (a : α) : a ∈ m ↔ m[a]? ≠ none := by
  rw [ExtTreeMap.mem_iff_isSome_getElem?,Option.isSome_iff_ne_none]

section Lawful
variable [LawfulEqOrd α]

theorem mem_entriesWhere {m : ExtTreeMap α β} {p : α → Bool} {k : α} {v : β} :
    (k,v) ∈ entriesWhere m p ↔ p k ∧ m[k]? = some v := by
  rw [entriesWhere,mem_filter,ExtTreeMap.mem_toList_iff_getElem?_eq_some,and_comm]

variable [DecidableEq α]

theorem getElem?_erase (m : ExtTreeMap α β) (k a : α) :
    (m.erase k)[a]? = if k = a then none else m[a]? := by
  simp [ExtTreeMap.getElem?_erase]

theorem getElem?_insert (m : ExtTreeMap α β) (k a : α) (v : β) :
    (m.insert k v)[a]? = if k = a then some v else m[a]? := by
  simp [ExtTreeMap.getElem?_insert]

theorem getElem?_eraseAll (m : ExtTreeMap α β) (keys : List α) (a : α) :
    (eraseAll m keys)[a]? = if a ∈ keys then none else m[a]? := by
  induction keys generalizing m with
  | nil => simp
  | cons k keys ih =>
    rw [eraseAll_cons,ih,getElem?_erase]
    by_cases h : k = a
    · subst h
      simp
    · simp [h,Ne.symm h]

@[simp] theorem getElem?_retain (m : ExtTreeMap α β) (p : α → Bool) (a : α) :
    (retain m p)[a]? = if p a then m[a]? else none := by
  simp only [retain,getElem?_eraseAll,mem_filter,ExtTreeMap.mem_keys,mem_iff_getElem?_ne_none]
  cases p a <;> by_cases h : m[a]? = none <;> simp [h]

theorem ofList_toList (m : ExtTreeMap α β) : ExtTreeMap.ofList m.toList = m := by
  apply ExtTreeMap.ext_getElem?
  intro k
  cases h : m[k]? with
  | some v =>
    exact ExtTreeMap.getElem?_ofList_of_mem (ReflOrd.compare_self) ExtTreeMap.distinct_keys_toList
      (ExtTreeMap.mem_toList_iff_getElem?_eq_some.2 h)
  | none =>
    apply ExtTreeMap.getElem?_ofList_of_contains_eq_false
    rw [contains_eq_mem,decide_eq_false_iff_not,mem_map]
    rintro ⟨⟨k',v⟩,hm,rfl⟩
    rw [ExtTreeMap.mem_toList_iff_getElem?_eq_some,h] at hm
    cases hm

end Lawful
/-- A list in strictly increasing key order is determined by its elements. -/
theorem eq_of_sorted_of_mem_iff {α β : Type*} [Preorder β] (key : α → β) {l l' : List α}
    (h : l.Pairwise (key · < key ·)) (h' : l'.Pairwise (key · < key ·))
    (hm : ∀ a, a ∈ l ↔ a ∈ l') : l = l' := by
  have hn : ∀ {l : List α}, l.Pairwise (key · < key ·) → l.Nodup := fun h =>
    h.imp fun hlt heq => absurd (heq ▸ hlt) (lt_irrefl _)
  have hp := (perm_ext_iff_of_nodup (hn h) (hn h')).2 hm
  exact hp.eq_of_pairwise (fun a b _ _ hab hba => absurd (hab.trans hba) (lt_irrefl _)) h h'

end OrderedMap
end PgBattery
