import Mathlib

/-! Keeping one entry of a kind in a list: either the first of the kind makes way for the new one, the
others go, and without one it is added at the end; or the one with its key stays and the new one goes. -/
namespace PgBattery
namespace Upsert
open List
variable {α : Type*} {p q : α → Bool} {a : α}

def upsert (p : α → Bool) (a : α) : List α → List α
  | [] => [a]
  | x::xs => if p x then a::xs.filter (!p ·) else x::upsert p a xs

theorem mem_upsert_self (p : α → Bool) (a : α) (l : List α) : a ∈ upsert p a l := by
  induction l with
  | nil => exact mem_singleton_self a
  | cons x l ih =>
    rw [upsert]
    split
    · exact mem_cons_self
    · exact mem_cons_of_mem x ih

theorem eq_or_mem_of_mem_upsert {l : List α} {x : α} (h : x ∈ upsert p a l) : x = a ∨ x ∈ l ∧ p x = false := by
  induction l with
  | nil => exact .inl (mem_singleton.1 h)
  | cons y l ih =>
    rw [upsert] at h
    split at h
    · rcases mem_cons.1 h with rfl | hm
      · exact .inl rfl
      · obtain ⟨hl,hp⟩ := mem_filter.1 hm
        exact .inr ⟨mem_cons_of_mem y hl,by simpa using hp⟩
    · next hy =>
      rcases mem_cons.1 h with rfl | hm
      · exact .inr ⟨mem_cons_self,by simpa using hy⟩
      · exact (ih hm).imp_right fun hx => ⟨mem_cons_of_mem y hx.1,hx.2⟩

theorem filter_filter_not (p : α → Bool) (l : List α) : (l.filter (!p ·)).filter p = [] := by
  simp

theorem filter_upsert_self (ha : p a) (l : List α) : (upsert p a l).filter p = [a] := by
  induction l with
  | nil => simp [upsert,ha]
  | cons x l ih =>
    rw [upsert]
    split
    · rw [filter_cons_of_pos ha,filter_filter_not]
    · next hx => rw [filter_cons_of_neg hx,ih]

theorem filter_filter_disjoint (h : ∀ x, p x → q x = false) (l : List α) :
    (l.filter (!p ·)).filter q = l.filter q := by
  rw [filter_filter]
  refine filter_congr fun x _ => ?_
  cases hp : p x with
  | true => simp [h x hp]
  | false => simp

theorem filter_upsert_other (h : ∀ x, p x → q x = false) (ha : p a) (l : List α) :
    (upsert p a l).filter q = l.filter q := by
  have haq : ¬q a := by rw [h a ha]; decide
  induction l with
  | nil => rw [upsert,filter_cons_of_neg haq]
  | cons x l ih =>
    rw [upsert]
    split
    · next hx =>
      rw [filter_cons_of_neg haq,filter_cons_of_neg (by rw [h x hx]; decide),
        filter_filter_disjoint h]
    · rw [filter_cons,filter_cons,ih]

theorem upsert_eq_self {l : List α} (h : l.filter p = [a]) : upsert p a l = l := by
  induction l with
  | nil => cases h
  | cons x l ih =>
    rw [upsert]
    split
    · next hx =>
      rw [filter_cons_of_pos hx] at h
      obtain ⟨rfl,hl⟩ := List.cons.inj h
      rw [filter_eq_self.2 fun y hy => ?_]
      simpa using filter_eq_nil_iff.1 hl y hy
    · next hx =>
      rw [filter_cons_of_neg hx] at h
      rw [ih h]

theorem upsert_map {f : α → α} (hp : ∀ x, p (f x) = p x) (ha : f a = a) (l : List α) :
    (upsert p a l).map f = upsert p a (l.map f) := by
  induction l with
  | nil => rw [upsert,map_singleton,ha]; rfl
  | cons x l ih =>
    rw [map_cons,upsert,upsert,hp]
    split
    · rw [map_cons,ha,filter_map]
      simp only [Function.comp_def,hp]
    · rw [map_cons,ih]

/-- Only entries that are not of the kind matter to the result. -/
theorem upsert_congr {f : α → α} (hp : ∀ x, p (f x) = p x) {l : List α}
    (hf : ∀ x ∈ l, p x = false → f x = x) : upsert p a (l.map f) = upsert p a l := by
  induction l with
  | nil => rfl
  | cons x l ih =>
    have hl : ∀ y ∈ l, p y = false → f y = y := fun y hy => hf y (mem_cons_of_mem x hy)
    rw [map_cons,upsert,upsert,hp]
    split
    · rw [filter_map]
      simp only [Function.comp_def,hp]
      rw [map_congr_left fun y hy => ?_,map_id]
      obtain ⟨hm,hy⟩ := mem_filter.1 hy
      exact hl y hm (by simpa using hy)
    · next hx => rw [hf x mem_cons_self (by simpa using hx),ih hl]

theorem filterMap_upsert {β : Type*} {g : α → Option β} (ha : g a = none) {l : List α}
    (hg : ∀ x ∈ l, p x → g x = none) : (upsert p a l).filterMap g = l.filterMap g := by
  induction l with
  | nil => rw [upsert,filterMap_cons_none ha]
  | cons x l ih =>
    have hl : ∀ y ∈ l, p y → g y = none := fun y hy => hg y (mem_cons_of_mem x hy)
    rw [upsert]
    split
    · next hx =>
      rw [filterMap_cons_none ha,filterMap_cons_none (hg x mem_cons_self hx),
        filterMap_filter]
      refine filterMap_congr fun y hy => ?_
      cases hp : p y with
      | true => simp [hl y hy hp]
      | false => simp
    · rw [filterMap_cons,filterMap_cons,ih hl]

section Insert
variable {κ : Type*} [DecidableEq κ] {key : α → κ} {l : List α} {x : α}

/-- Add the entry unless one with its key is there. -/
def insertNew (key : α → κ) (l : List α) (a : α) : List α :=
  if l.any fun x => key x = key a then l else l++[a]

theorem eq_or_mem_of_mem_insertNew (h : x ∈ insertNew key l a) : x ∈ l ∨ x = a := by
  rw [insertNew] at h
  split at h
  · exact .inl h
  · simpa using h

theorem mem_insertNew_of_mem (h : x ∈ l) : x ∈ insertNew key l a := by
  rw [insertNew]
  split
  · exact h
  · exact mem_append_left [a] h

theorem exists_mem_insertNew (key : α → κ) (l : List α) (a : α) :
    ∃ x ∈ insertNew key l a, key x = key a := by
  rw [insertNew]
  split
  · next h => simpa using h
  · exact ⟨a,mem_append_right l (mem_singleton_self a),rfl⟩

theorem unique_insertNew {p : κ → Prop} (h : ∀ x ∈ l, ∀ y ∈ l, p (key x) → key x = key y → x = y) :
    ∀ x ∈ insertNew key l a, ∀ y ∈ insertNew key l a, p (key x) → key x = key y → x = y := by
  intro x hx y hy hp hk
  rw [insertNew] at hx hy
  split at hx
  · next ha =>
    rw [if_pos ha] at hy
    exact h x hx y hy hp hk
  · next ha =>
    rw [if_neg ha] at hy
    have hf : ∀ z ∈ l, key z ≠ key a := by simpa using ha
    rcases mem_append.1 hx with hx | hx <;> rcases mem_append.1 hy with hy | hy
    · exact h x hx y hy hp hk
    · rw [mem_singleton.1 hy] at hk
      exact absurd hk (hf x hx)
    · rw [mem_singleton.1 hx] at hk
      exact absurd hk.symm (hf y hy)
    · rw [mem_singleton.1 hx,mem_singleton.1 hy]

theorem mem_or_mem_of_mem_foldl {as : List α} (h : x ∈ as.foldl (insertNew key) l) : x ∈ l ∨ x ∈ as := by
  induction as generalizing l with
  | nil => exact .inl h
  | cons a as ih =>
    rcases ih h with hm | hm
    · rcases eq_or_mem_of_mem_insertNew hm with hm | rfl
      · exact .inl hm
      · exact .inr mem_cons_self
    · exact .inr (mem_cons_of_mem a hm)

theorem mem_foldl_of_mem {as : List α} (h : x ∈ l) : x ∈ as.foldl (insertNew key) l := by
  induction as generalizing l with
  | nil => exact h
  | cons a as ih => exact ih (mem_insertNew_of_mem h)

theorem exists_mem_foldl (key : α → κ) {as : List α} (h : a ∈ as) (l : List α) :
    ∃ x ∈ as.foldl (insertNew key) l, key x = key a := by
  induction as generalizing l with
  | nil => cases h
  | cons b as ih =>
    rcases mem_cons.1 h with rfl | hm
    · obtain ⟨x,hx,hk⟩ := exists_mem_insertNew key l a
      exact ⟨x,mem_foldl_of_mem (l := insertNew key l a) hx,hk⟩
    · exact ih hm (insertNew key l b)

theorem unique_foldl {p : κ → Prop} {as : List α}
    (h : ∀ x ∈ l, ∀ y ∈ l, p (key x) → key x = key y → x = y) :
    ∀ x ∈ as.foldl (insertNew key) l, ∀ y ∈ as.foldl (insertNew key) l,
      p (key x) → key x = key y → x = y := by
  induction as generalizing l with
  | nil => exact h
  | cons a as ih => exact ih (unique_insertNew h)

end Insert

end Upsert
end PgBattery
