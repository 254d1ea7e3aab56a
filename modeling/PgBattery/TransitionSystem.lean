import Mathlib

/-! Labelled transition systems given by a partial step function, their runs, and the rules that
carry an invariant along a run. -/
namespace PgBattery
namespace TransitionSystem
open List
variable {σ ℓ : Type*} (step : σ → ℓ → Option σ)

def run : σ → List ℓ → Option σ
  | s, [] => some s
  | s, l::ls => (step s l).bind fun t => run t ls

/-- Every label of the run meets `guard` in the state it is taken from. -/
def Guarded (guard : σ → ℓ → Prop) : σ → List ℓ → Prop
  | _, [] => True
  | s, l::ls => guard s l ∧ ∀ t, step s l = some t → Guarded guard t ls

instance instDecidableGuarded {guard : σ → ℓ → Prop} [∀ s l, Decidable (guard s l)] :
    ∀ s ls, Decidable (Guarded step guard s ls)
  | _, [] => isTrue trivial
  | s, l::ls =>
    have : ∀ t, Decidable (Guarded step guard t ls) := fun t => instDecidableGuarded t ls
    inferInstanceAs (Decidable (guard s l ∧ ∀ t ∈ step s l, Guarded step guard t ls))

variable {step}

@[simp] theorem run_nil (s : σ) : run step s [] = some s := rfl

theorem run_cons (s : σ) (l : ℓ) (ls : List ℓ) :
    run step s (l::ls) = (step s l).bind fun t => run step t ls := rfl

theorem run_append (s : σ) (ls ms : List ℓ) :
    run step s (ls++ms) = (run step s ls).bind fun t => run step t ms := by
  induction ls generalizing s with
  | nil => rfl
  | cons l ls ih =>
    rw [cons_append,run_cons,run_cons,Option.bind_assoc]
    congr 1
    funext t
    exact ih t

variable {guard : σ → ℓ → Prop}

theorem guarded_append (s : σ) (ls ms : List ℓ) :
    Guarded step guard s (ls++ms) ↔
      Guarded step guard s ls ∧ ∀ t, run step s ls = some t → Guarded step guard t ms := by
  induction ls generalizing s with
  | nil => simp [Guarded]
  | cons l ls ih =>
    simp only [cons_append,Guarded,run_cons,ih,Option.bind_eq_some_iff]
    constructor
    · rintro ⟨hl,hr⟩
      refine ⟨⟨hl,fun t ht => (hr t ht).1⟩,?_⟩
      rintro u ⟨t,ht,hu⟩
      exact (hr t ht).2 u hu
    · rintro ⟨⟨hl,hls⟩,hms⟩
      exact ⟨hl,fun t ht => ⟨hls t ht,fun u hu => hms u ⟨t,ht,hu⟩⟩⟩

/-- The invariant rule for runs whose labels all meet a guard. -/
theorem run_invariant_guarded {inv : σ → Prop}
    (hst : ∀ s l t, inv s → guard s l → step s l = some t → inv t) {s t : σ} {ls : List ℓ}
    (hs : inv s) (hg : Guarded step guard s ls) (hr : run step s ls = some t) : inv t := by
  induction ls generalizing s with
  | nil => cases hr; exact hs
  | cons l ls ih =>
    rw [run_cons] at hr
    obtain ⟨u,hu,hre⟩ := Option.bind_eq_some_iff.1 hr
    exact ih (hst s l u hs hg.1 hu) (hg.2 u hu) hre

/-- What a guard gives under an invariant holds at every step of a guarded run. -/
theorem Guarded.imp {safe : σ → ℓ → Prop} {inv : σ → Prop}
    (hst : ∀ s l t, inv s → guard s l → step s l = some t → inv t)
    (hsa : ∀ s l, inv s → guard s l → safe s l) {s : σ} {ls : List ℓ} (hs : inv s)
    (hg : Guarded step guard s ls) : Guarded step safe s ls := by
  induction ls generalizing s with
  | nil => trivial
  | cons l ls ih =>
    refine ⟨hsa s l hs hg.1,fun t ht => ?_⟩
    exact ih (hst s l t hs hg.1 ht) (hg.2 t ht)

theorem guarded_of_forall {ls : List ℓ} (h : ∀ l ∈ ls, ∀ s, guard s l) (s : σ) :
    Guarded step guard s ls := by
  induction ls generalizing s with
  | nil => trivial
  | cons l ls ih =>
    exact ⟨h l mem_cons_self s,fun t _ => ih (fun l' hl' => h l' (mem_cons_of_mem l hl')) t⟩

theorem guarded_true (s : σ) (ls : List ℓ) : Guarded step (fun _ _ => True) s ls :=
  guarded_of_forall (fun _ _ _ => trivial) s

/-- The invariant rule: what holds at the start and is kept by every step holds after every run. -/
theorem run_invariant {inv : σ → Prop} (hst : ∀ s l t, inv s → step s l = some t → inv t)
    {s t : σ} {ls : List ℓ} (hs : inv s) (hr : run step s ls = some t) : inv t :=
  run_invariant_guarded (fun s l t hi _ => hst s l t hi) hs (guarded_true s ls) hr

end TransitionSystem
end PgBattery
