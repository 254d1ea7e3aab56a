import PgBattery.TransitionSystem

/-! Programs that act only by asking their environment. A program is run against a world one answer at
a time, so it can be looked at, or cut off, between any two answers. -/
namespace PgBattery
namespace Interaction

/-- `ask o k` asks for `o` and goes on as `k` with the answer. -/
inductive Program (Op : Type) (Ans : Op → Type) (α : Type)
  | pure (a : α)
  | ask (o : Op) (k : Ans o → Program Op Ans α)

namespace Program
variable {Op : Type} {Ans : Op → Type} {α β : Type}

protected def bind : Program Op Ans α → (α → Program Op Ans β) → Program Op Ans β
  | .pure a, f => f a
  | .ask o k, f => .ask o fun x => (k x).bind f

instance instMonadProgram : Monad (Program Op Ans) where
  pure := .pure
  bind := Program.bind

def perform (o : Op) : Program Op Ans (Ans o) := .ask o .pure

/-- The result when every question has a fixed answer. -/
def eval (answers : (o : Op) → Ans o) : Program Op Ans α → α
  | .pure a => a
  | .ask o k => (k (answers o)).eval answers

/-- Every question asked by a program of its own. -/
def interpret {Op' : Type} {Ans' : Op' → Type} (handle : (o : Op) → Program Op' Ans' (Ans o)) :
    Program Op Ans α → Program Op' Ans' α
  | .pure a => .pure a
  | .ask o k => (handle o).bind fun x => (k x).interpret handle

@[simp] theorem eval_pure (answers : (o : Op) → Ans o) (a : α) :
    (Pure.pure a : Program Op Ans α).eval answers = a := rfl

@[simp] theorem eval_perform (answers : (o : Op) → Ans o) (o : Op) :
    (perform o).eval answers = answers o := rfl

@[simp] theorem eval_bind (answers : (o : Op) → Ans o) (p : Program Op Ans α)
    (f : α → Program Op Ans β) :
    (p >>= f).eval answers = (f (p.eval answers)).eval answers := by
  induction p with
  | pure a => rfl
  | ask o k ih => exact ih (answers o)

variable {W E : Type} (answer : W → (o : Op) → E → Option (Ans o × W))

def step (c : W × Program Op Ans α) (e : E) : Option (W × Program Op Ans α) :=
  match c.2 with
  | .pure _ => none
  | .ask o k => (answer c.1 o e).map fun r => (r.2,k r.1)

/-- `guard` of the next answer, with the world and what is asked. -/
def asked (guard : W → Op → E → Prop) (c : W × Program Op Ans α) (e : E) : Prop :=
  match c.2 with
  | .pure _ => True
  | .ask o _ => guard c.1 o e

instance instDecidableAsked {guard : W → Op → E → Prop} [∀ w o e, Decidable (guard w o e)]
    (c : W × Program Op Ans α) (e : E) : Decidable (asked guard c e) :=
  match c with
  | (_,.pure _) => isTrue trivial
  | (w,.ask o _) => inferInstanceAs (Decidable (guard w o e))

/-- Whatever is answered within `guard`, every world on the way meets `inv` and the result meets
`post`. -/
def Keeps (guard : W → Op → E → Prop) (inv : W → Prop) (post : α → W → Prop) :
    Program Op Ans α → W → Prop
  | .pure a, w => post a w
  | .ask o k, w => ∀ e x w', guard w o e → answer w o e = some (x,w') →
      inv w' ∧ Keeps guard inv post (k x) w'

variable {answer} {guard : W → Op → E → Prop} {inv : W → Prop}

variable {p : Program Op Ans α} {w w' : W} {f : α → Program Op Ans β} {kind : Op → Prop}
  {post : α → W → Prop} {c d : W × Program Op Ans α}

theorem Keeps.mono {P Q : α → W → Prop} (hi : ∀ a w, P a w → Q a w)
    (h : Keeps answer guard inv P p w) : Keeps answer guard inv Q p w := by
  induction p generalizing w with
  | pure a => exact hi a w h
  | ask o k ih =>
    intro e x w' hg he
    obtain ⟨hin,hr⟩ := h e x w' hg he
    exact ⟨hin,ih x hr⟩

theorem keeps_bind {post : β → W → Prop}
    (h : Keeps answer guard inv (fun a w => Keeps answer guard inv post (f a) w) p w) :
    Keeps answer guard inv post (p >>= f) w := by
  induction p generalizing w with
  | pure a => exact h
  | ask o k ih =>
    intro e x w' hg he
    obtain ⟨hi,hr⟩ := h e x w' hg he
    exact ⟨hi,ih x hr⟩

theorem keeps_bind_except {ε : Type} {post : Except ε β → W → Prop}
    {p : ExceptT ε (Program Op Ans) α} {f : α → ExceptT ε (Program Op Ans) β}
    (h : Keeps answer guard inv (fun r w => match r with
      | .ok a => Keeps answer guard inv post (f a).run w
      | .error err => post (.error err) w) p.run w) :
    Keeps answer guard inv post (p >>= f).run w := by
  refine keeps_bind (h.mono fun r w hr => ?_)
  cases r with
  | ok a => exact hr
  | error err => exact hr

theorem keeps_lift {ε : Type} {post : Except ε α → W → Prop}
    (h : Keeps answer guard inv (fun a w => post (.ok a) w) p w) :
    Keeps answer guard inv post (ExceptT.lift p : ExceptT ε (Program Op Ans) α).run w := by
  refine keeps_bind (h.mono fun a w ha => ?_)
  exact ha

/-- Everything the program may ask for is of the given kind. -/
def Only (kind : Op → Prop) : Program Op Ans α → Prop
  | .pure _ => True
  | .ask o k => kind o ∧ ∀ x, Only kind (k x)

theorem only_perform {o : Op} (h : kind o) :
    Only kind (perform o : Program Op Ans (Ans o)) := ⟨h,fun _ => trivial⟩

theorem only_bind (hp : Only kind p) (hf : ∀ a, Only kind (f a)) : Only kind (p >>= f) := by
  induction p with
  | pure a => exact hf a
  | ask o k ih => exact ⟨hp.1,fun x => ih x (hp.2 x)⟩

theorem only_bind_except {ε : Type} {p : ExceptT ε (Program Op Ans) α}
    {f : α → ExceptT ε (Program Op Ans) β} (hp : Only kind p.run) (hf : ∀ a, Only kind (f a).run) :
    Only kind (p >>= f).run := by
  refine only_bind hp fun r => ?_
  cases r with
  | ok a => exact hf a
  | error err => exact trivial

theorem only_lift {ε : Type} (hp : Only kind p) :
    Only kind (ExceptT.lift p : ExceptT ε (Program Op Ans) α).run :=
  only_bind hp fun _ => trivial

theorem keeps_of_only {P : W → Prop}
    (hP : ∀ w o e x w', kind o → P w → guard w o e → answer w o e = some (x,w') → inv w' ∧ P w')
    (hp : Only kind p) (hw : P w) : Keeps answer guard inv (fun _ w => P w) p w := by
  induction p generalizing w with
  | pure a => exact hw
  | ask o k ih =>
    intro e x w' hg he
    obtain ⟨hi,hP'⟩ := hP w o e x w' hp.1 hw hg he
    exact ⟨hi,ih x (hp.2 x) hP'⟩

theorem keeps_step {e : E} (h : Keeps answer guard inv post c.2 c.1) (hg : asked guard c e)
    (hs : step answer c e = some d) : inv d.1 ∧ Keeps answer guard inv post d.2 d.1 := by
  obtain ⟨w,p⟩ := c
  cases p with
  | pure a => cases hs
  | ask o k =>
    obtain ⟨⟨x,w'⟩,he,rfl⟩ := Option.map_eq_some_iff.1 hs
    exact h e x w' hg he

/-- What a run within `guard` leaves of a program that keeps the invariant keeps it too. -/
theorem keeps_run {es : List E} (h : inv c.1 ∧ Keeps answer guard inv post c.2 c.1)
    (hg : TransitionSystem.Guarded (step answer) (asked guard) c es)
    (hr : TransitionSystem.run (step answer) c es = some d) :
    inv d.1 ∧ Keeps answer guard inv post d.2 d.1 := by
  have hs : ∀ (c : W × Program Op Ans α) (e : E) (d : W × Program Op Ans α),
      inv c.1 ∧ Keeps answer guard inv post c.2 c.1 → asked guard c e → step answer c e = some d →
      inv d.1 ∧ Keeps answer guard inv post d.2 d.1 := fun c e d hc hce => keeps_step hc.2 hce
  exact TransitionSystem.run_invariant_guarded hs h hg hr

/-- Every world that a run of the program within `guard` reaches meets the invariant. -/
theorem run_keeps {p' : Program Op Ans α} {es : List E} (h : Keeps answer guard inv post p w)
    (hw : inv w) (hg : TransitionSystem.Guarded (step answer) (asked guard) (w,p) es)
    (hr : TransitionSystem.run (step answer) (w,p) es = some (w',p')) : inv w' :=
  (keeps_run ⟨hw,h⟩ hg hr).1

/-- What a run of the program within `guard` ends with meets the postcondition. -/
theorem run_ends {a : α} {es : List E} (h : Keeps answer guard inv post p w) (hw : inv w)
    (hg : TransitionSystem.Guarded (step answer) (asked guard) (w,p) es)
    (hr : TransitionSystem.run (step answer) (w,p) es = some (w',.pure a)) : post a w' :=
  (keeps_run ⟨hw,h⟩ hg hr).2

end Program
end Interaction
end PgBattery
