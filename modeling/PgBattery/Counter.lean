import Mathlib

/-! Counters that go up or down by a fixed increment within bounds, and start over at the other bound
or stop at the end. -/
namespace PgBattery

structure Counter where
  increment : ℤ
  low : ℤ
  high : ℤ
  cycle : Bool
  increment_ne : increment ≠ 0
  low_le_high : low ≤ high
  deriving DecidableEq

namespace Counter
variable (c : Counter)

def next (x : ℤ) : Option ℤ :=
  if 0 < c.increment then
    if x+c.increment ≤ c.high then some (x+c.increment) else if c.cycle then some c.low else none
  else if c.low ≤ x+c.increment then some (x+c.increment) else if c.cycle then some c.high else none

/-- The values that come after `x`, sooner or later. -/
inductive Later : ℤ → ℤ → Prop
  | next {x v : ℤ} (h : c.next x = some v) : Later x v
  | later {x v w : ℤ} (h : c.next x = some v) (hw : Later v w) : Later x w

/-- The last value on the way down from `x`. -/
def bottom (x : ℤ) : ℤ := c.low+(x-c.low)%(-c.increment)

/-- The least value that comes after `x`. -/
def lowest (x : ℤ) : Option ℤ :=
  if 0 < c.increment then
    if c.cycle then some c.low else c.next x
  else if c.low ≤ x+c.increment then
    some (if c.cycle then min (c.bottom x) (c.bottom c.high) else c.bottom x)
  else if c.cycle then some (c.bottom c.high) else none

variable {c} {x v w : ℤ}

theorem next_mem (hx : c.low ≤ x ∧ x ≤ c.high) (h : c.next x = some v) : c.low ≤ v ∧ v ≤ c.high := by
  have hle := c.low_le_high
  rw [next] at h
  split_ifs at h <;> cases h <;> constructor <;> omega

theorem Later.trans (h : c.Later x v) (hw : c.Later v w) : c.Later x w := by
  induction h with
  | next h => exact .later h hw
  | later h _ ih => exact .later h (ih hw)

theorem not_later (h : c.next x = none) : ¬c.Later x w := by
  intro hw
  cases hw with
  | next hv => rw [h] at hv; cases hv
  | later hv _ => rw [h] at hv; cases hv

section Ascending
variable (hup : 0 < c.increment)
include hup

theorem next_up (h : x+c.increment ≤ c.high) : c.next x = some (x+c.increment) := by
  rw [next,if_pos hup,if_pos h]

theorem add_le_of_later (hc : c.cycle = false) (h : c.Later x w) : x+c.increment ≤ w := by
  induction h with
  | next h =>
    simp only [next,if_pos hup,hc,Bool.false_eq_true,if_false] at h
    split_ifs at h
    cases h
    exact le_refl _
  | later h _ ih =>
    simp only [next,if_pos hup,hc,Bool.false_eq_true,if_false] at h
    split_ifs at h
    cases h
    omega

theorem low_le_of_later (hx : c.low ≤ x) (h : c.Later x w) : c.low ≤ w := by
  have hs : ∀ {x v}, c.low ≤ x → c.next x = some v → c.low ≤ v := by
    intro x v hx h
    simp only [next,if_pos hup] at h
    split_ifs at h <;> cases h <;> omega
  induction h with
  | next h => exact hs hx h
  | later h _ ih => exact ih (hs hx h)

theorem later_low (hc : c.cycle) (x : ℤ) : c.Later x c.low := by
  by_cases h : x+c.increment ≤ c.high
  · exact .later (next_up hup h) (later_low hc (x+c.increment))
  · refine .next ?_
    rw [next,if_pos hup,if_neg h,if_pos hc]
  termination_by (c.high-x).toNat
  decreasing_by omega

end Ascending

section Bottom

theorem bottom_add (x : ℤ) : c.bottom (x+c.increment) = c.bottom x := by
  rw [bottom,bottom,show x+c.increment-c.low = (x-c.low)+(-c.increment)*(-1) by ring,
    Int.add_mul_emod_self_left]

theorem bottom_eq (hx : c.low ≤ x) (h : x+c.increment < c.low) : c.bottom x = x := by
  rw [bottom,Int.emod_eq_of_lt (by omega) (by omega)]
  omega

theorem bottom_le (hdown : ¬0 < c.increment) (hx : c.low ≤ x) : c.bottom x ≤ x := by
  have hne := c.increment_ne
  have hs := Int.emod_add_mul_ediv (x-c.low) (-c.increment)
  have hq : 0 ≤ (x-c.low)/(-c.increment) := Int.ediv_nonneg (by omega) (by omega)
  have hp : 0 ≤ -c.increment*((x-c.low)/(-c.increment)) := mul_nonneg (by omega) hq
  rw [bottom]
  omega

end Bottom

section Descending
variable (hdown : ¬0 < c.increment)
include hdown

theorem next_down (h : c.low ≤ x+c.increment) : c.next x = some (x+c.increment) := by
  rw [next,if_neg hdown,if_pos h]

theorem next_turn (h : ¬c.low ≤ x+c.increment) (hc : c.cycle) : c.next x = some c.high := by
  rw [next,if_neg hdown,if_neg h,if_pos hc]

theorem later_bottom (x : ℤ) (h : c.low ≤ x+c.increment) : c.Later x (c.bottom x) := by
  rw [← bottom_add]
  by_cases ha : c.low ≤ x+c.increment+c.increment
  · exact .later (next_down hdown h) (later_bottom (x+c.increment) ha)
  · rw [bottom_eq h (not_le.1 ha)]
    exact .next (next_down hdown h)
  termination_by (x-c.low).toNat
  decreasing_by
    have hne := c.increment_ne
    omega

theorem later_high (hc : c.cycle) (x : ℤ) : c.Later x c.high := by
  by_cases h : c.low ≤ x+c.increment
  · exact .later (next_down hdown h) (later_high hc (x+c.increment))
  · exact .next (next_turn hdown h hc)
  termination_by (x+1-c.low).toNat
  decreasing_by
    have hne := c.increment_ne
    omega

theorem bottom_le_of_later (hx : c.low ≤ x) (h : c.Later x w) :
    c.low ≤ w ∧ (c.low ≤ x+c.increment ∧ c.bottom x ≤ w ∨ c.cycle ∧ c.bottom c.high ≤ w) := by
  have hs : ∀ {x v}, c.low ≤ x → c.next x = some v →
      c.low ≤ v ∧ (c.low ≤ x+c.increment ∧ v = x+c.increment ∨ c.cycle ∧ v = c.high) := by
    intro x v hx h
    have hle := c.low_le_high
    simp only [next,if_neg hdown] at h
    split_ifs at h with hl hc
    · cases h
      exact ⟨hl,.inl ⟨hl,rfl⟩⟩
    · cases h
      exact ⟨hle,.inr ⟨hc,rfl⟩⟩
  induction h with
  | next h =>
    obtain ⟨hl,⟨hx',rfl⟩ | ⟨hc,rfl⟩⟩ := hs hx h
    · refine ⟨hl,.inl ⟨hx',?_⟩⟩
      rw [← bottom_add]
      exact bottom_le hdown hl
    · exact ⟨hl,.inr ⟨hc,bottom_le hdown hl⟩⟩
  | later h _ ih =>
    obtain ⟨hl,hv⟩ := hs hx h
    obtain ⟨hw,hr⟩ := ih hl
    refine ⟨hw,?_⟩
    rcases hr with ⟨-,hb⟩ | hh
    · rcases hv with ⟨hx',rfl⟩ | ⟨hc,rfl⟩
      · rw [bottom_add] at hb
        exact .inl ⟨hx',hb⟩
      · exact .inr ⟨hc,hb⟩
    · exact .inr hh

theorem later_bottom_high (hc : c.cycle) (x : ℤ) : c.Later x (c.bottom c.high) := by
  have hle := c.low_le_high
  by_cases h : c.low ≤ c.high+c.increment
  · exact (later_high hdown hc x).trans (later_bottom hdown c.high h)
  · rw [bottom_eq hle (not_le.1 h)]
    exact later_high hdown hc x

end Descending

theorem lowest_eq_some (hx : c.low ≤ x) (h : c.lowest x = some v) :
    c.Later x v ∧ ∀ w, c.Later x w → v ≤ w := by
  rw [lowest] at h
  by_cases hup : 0 < c.increment
  · rw [if_pos hup] at h
    cases hc : c.cycle with
    | true =>
      rw [hc,if_pos rfl,Option.some.injEq] at h
      subst h
      exact ⟨later_low hup hc x,fun w hw => low_le_of_later hup hx hw⟩
    | false =>
      rw [hc,if_neg Bool.false_ne_true] at h
      refine ⟨.next h,fun w hw => ?_⟩
      simp only [next,if_pos hup,hc,Bool.false_eq_true,if_false] at h
      split_ifs at h
      cases h
      exact add_le_of_later hup hc hw
  · rw [if_neg hup] at h
    by_cases hl : c.low ≤ x+c.increment
    · rw [if_pos hl,Option.some.injEq] at h
      cases hc : c.cycle with
      | true =>
        rw [hc,if_pos rfl] at h
        subst h
        refine ⟨?_,fun w hw => ?_⟩
        · rcases min_choice (c.bottom x) (c.bottom c.high) with hm | hm
          · rw [hm]
            exact later_bottom hup x hl
          · rw [hm]
            exact later_bottom_high hup hc x
        · obtain ⟨-,⟨-,hw⟩ | ⟨-,hw⟩⟩ := bottom_le_of_later hup hx hw
          · exact (min_le_left _ _).trans hw
          · exact (min_le_right _ _).trans hw
      | false =>
        rw [hc,if_neg Bool.false_ne_true] at h
        subst h
        refine ⟨later_bottom hup x hl,fun w hw => ?_⟩
        obtain ⟨-,⟨-,hw⟩ | ⟨ht,-⟩⟩ := bottom_le_of_later hup hx hw
        · exact hw
        · rw [hc] at ht
          cases ht
    · rw [if_neg hl] at h
      split_ifs at h with hc
      cases h
      refine ⟨later_bottom_high hup hc x,fun w hw => ?_⟩
      obtain ⟨-,⟨hx',-⟩ | ⟨-,hw⟩⟩ := bottom_le_of_later hup hx hw
      · exact absurd hx' hl
      · exact hw

theorem lowest_eq_none (h : c.lowest x = none) : c.next x = none := by
  rw [lowest] at h
  by_cases hup : 0 < c.increment
  · rw [if_pos hup] at h
    split_ifs at h
    exact h
  · rw [if_neg hup] at h
    rw [next,if_neg hup]
    split_ifs at h ⊢
    rfl

theorem forall_later_iff (hx : c.low ≤ x) :
    (∀ w, c.Later x w → v < w) ↔ ∀ l ∈ c.lowest x, v < l := by
  cases hl : c.lowest x with
  | none =>
    have hn := lowest_eq_none hl
    simp [not_later hn]
  | some l =>
    obtain ⟨hla,hle⟩ := lowest_eq_some hx hl
    simp only [Option.mem_def,Option.some.injEq,forall_eq']
    exact ⟨fun h => h l hla,fun h w hw => lt_of_lt_of_le h (hle w hw)⟩

end Counter
end PgBattery
