import Mathlib

/-! The first occurrence of one list in another: what stands before it, what follows it, and what can be
written around a text without making one. -/
namespace PgBattery
namespace Search
open List
variable {α : Type*} [DecidableEq α] {sep : List α}

/-- The text around the first occurrence of `sep`, which is not empty. -/
def split (sep : List α) : List α → Option (List α × List α)
  | [] => none
  | c::cs =>
    if sep.isPrefixOf (c::cs) then some ([],(c::cs).drop sep.length)
    else (split sep cs).map fun r => (c::r.1,r.2)

def Free (sep s : List α) : Prop := split sep s = none

instance instDecidableFree (sep s : List α) : Decidable (Free sep s) :=
  inferInstanceAs (Decidable (split sep s = none))

variable {cs s a b : List α}

theorem split_cons_pos {c : α} (h : sep <+: c::cs) :
    split sep (c::cs) = some ([],(c::cs).drop sep.length) := if_pos ( isPrefixOf_iff_prefix.2 h)

theorem split_cons_neg {c : α} (h : ¬sep <+: c::cs) :
    split sep (c::cs) = (split sep cs).map fun r => (c::r.1,r.2) :=
  if_neg fun hp => h ( isPrefixOf_iff_prefix.1 hp)

theorem split_self_append (hs : sep ≠ []) (t : List α) : split sep (sep++t) = some ([],t) := by
  obtain ⟨c,cs,rfl⟩ := exists_cons_of_ne_nil hs
  have hp : c::cs <+: c::(cs++t) := prefix_append (c::cs) t
  rw [cons_append,split_cons_pos hp,← cons_append,drop_left]

theorem eq_append_of_split (h : split sep s = some (a,b)) : s = a++sep++b := by
  induction s generalizing a with
  | nil => cases h
  | cons c s ih =>
    by_cases hp : sep <+: c::s
    · rw [split_cons_pos hp] at h
      cases h
      obtain ⟨t,ht⟩ := hp
      rw [← ht,drop_left]
      rfl
    · rw [split_cons_neg hp,Option.map_eq_some_iff] at h
      obtain ⟨⟨a',b'⟩,hs,heq⟩ := h
      cases heq
      rw [ih hs]
      rfl

theorem split_append (h : split sep s = some (a,b)) (t : List α) :
    split sep (s++t) = some (a,b++t) := by
  induction s generalizing a with
  | nil => cases h
  | cons c s ih =>
    by_cases hp : sep <+: c::s
    · rw [split_cons_pos hp] at h
      cases h
      obtain ⟨u,hu⟩ := hp
      have hp' : sep <+: c::(s++t) := by
        rw [← cons_append,← hu,append_assoc]
        exact prefix_append sep _
      rw [cons_append,split_cons_pos hp',← cons_append,← hu,append_assoc,drop_left,
        drop_left]
    · rw [split_cons_neg hp,Option.map_eq_some_iff] at h
      obtain ⟨⟨a',b'⟩,hs,heq⟩ := h
      cases heq
      have hp' : ¬sep <+: c::(s++t) := by
        intro hlo
        refine hp (prefix_of_prefix_length_le hlo (prefix_append (c::s) t) ?_)
        have hl := congrArg List.length (eq_append_of_split hs)
        simp only [length_append,length_cons] at hl ⊢
        omega
      rw [cons_append,split_cons_neg hp',ih hs]
      rfl

theorem split_of_split (hse : sep ≠ []) (h : split sep s = some (a,b)) (t : List α) :
    split sep (a++sep++t) = some (a,t) := by
  induction s generalizing a with
  | nil => cases h
  | cons c s ih =>
    by_cases hp : sep <+: c::s
    · rw [split_cons_pos hp] at h
      cases h
      exact split_self_append hse t
    · rw [split_cons_neg hp,Option.map_eq_some_iff] at h
      obtain ⟨⟨a',b'⟩,hs,heq⟩ := h
      cases heq
      have hp' : ¬sep <+: c::(a'++sep++t) := by
        intro hl
        refine hp ?_
        have hsh : sep <+: c::(a'++sep) :=
          prefix_of_prefix_length_le hl (prefix_append (c::(a'++sep)) t) (by simp; omega)
        rw [eq_append_of_split hs]
        exact hsh.trans (prefix_append (c::(a'++sep)) b')
      rw [cons_append,cons_append,split_cons_neg hp',ih hs]
      rfl

/-- What the first occurrence comes after can be left off. -/
theorem split_of_append {x y : List α} (h : split sep (a++s) = some (a++x,y)) :
    split sep s = some (x,y) := by
  induction a with
  | nil => exact h
  | cons c a ih =>
    by_cases hp : sep <+: c::(a++s)
    · rw [cons_append,split_cons_pos hp] at h
      cases h
    · rw [cons_append,split_cons_neg hp,Option.map_eq_some_iff] at h
      obtain ⟨⟨u,v⟩,hs,heq⟩ := h
      cases heq
      exact ih hs

theorem free_of_append (h : Free sep (a++b)) : Free sep a := by
  rw [Free,Option.eq_none_iff_forall_ne_some]
  rintro ⟨x,y⟩ hs
  rw [Free,split_append hs] at h
  cases h

theorem free_of_split (hse : sep ≠ []) (h : split sep s = some (a,b)) : Free sep a := by
  rw [Free,Option.eq_none_iff_forall_ne_some]
  rintro ⟨x,y⟩ hs
  have hlo := split_append hs (sep++b)
  rw [← append_assoc,split_of_split hse h] at hlo
  obtain ⟨-,hb⟩ := Prod.mk.inj (Option.some.inj hlo)
  have hl := congrArg List.length hb
  have hp := List.length_pos_iff.2 hse
  simp only [length_append] at hl
  omega

omit [DecidableEq α] in
theorem not_prefix_of_head {c : α} (hs : sep ≠ []) (hc : c ∉ sep) : ¬sep <+: c::s := by
  obtain ⟨d,ds,rfl⟩ := exists_cons_of_ne_nil hs
  intro hp
  obtain ⟨rfl,-⟩ := List.cons_prefix_cons.1 hp
  exact hc mem_cons_self

theorem split_append_stop (hs : sep ≠ []) (ha : Free sep a) {c : α} (hc : c ∉ sep) (s : List α) :
    split sep (a++c::s) = (split sep s).map fun r => (a++c::r.1,r.2) := by
  induction a with
  | nil => exact split_cons_neg (not_prefix_of_head hs hc)
  | cons d a ih =>
    have hp : ¬sep <+: d::a := by
      intro hp
      rw [Free,split_cons_pos hp] at ha
      cases ha
    have hre : Free sep a := by
      rw [Free,split_cons_neg hp,Option.map_eq_none_iff] at ha
      exact ha
    have hp' : ¬sep <+: d::(a++c::s) := by
      intro hl
      rcases Nat.lt_or_ge (d::a).length sep.length with hlt | hle
      · have hr : d::a++[c] <+: d::(a++c::s) := ⟨s,by simp⟩
        have ho := prefix_of_prefix_length_le hr hl (by simp at hlt ⊢; omega)
        exact hc (ho.subset (by simp))
      · exact hp (prefix_of_prefix_length_le hl (prefix_append (d::a) (c::s)) hle)
    rw [cons_append,split_cons_neg hp',ih hre,Option.map_map]
    rfl

/-- No occurrence of `sep` starts in `a`, whatever follows it. -/
def Apart (a sep : List α) : Prop := ∀ t ∈ a.tails, t ≠ [] → ¬t <+: sep ∧ ¬sep <+: t

theorem split_append_apart (h : Apart a sep) (s : List α) :
    split sep (a++s) = (split sep s).map fun r => (a++r.1,r.2) := by
  induction a with
  | nil => simp
  | cons d a ih =>
    have hp : ¬sep <+: d::(a++s) := by
      intro hl
      obtain ⟨h₁,h₂⟩ := h (d::a) ((mem_tails _ _).2 suffix_rfl) (cons_ne_nil d a)
      rcases prefix_or_prefix_of_prefix hl (prefix_append (d::a) s) with hs | hs
      · exact h₂ hs
      · exact h₁ hs
    have hr : Apart a sep := fun t ht =>
      h t ((mem_tails _ _).2 (((mem_tails _ _).1 ht).trans (suffix_cons d a)))
    rw [cons_append,split_cons_neg hp,ih hr,Option.map_map]
    rfl

end Search
end PgBattery
