import Mathlib

/-! Streams of self-delimiting messages: however the bytes arrive, a reader takes the messages off
in the order they were written. -/
namespace PgBattery
open List
universe u v w

/-- A reader that finds a written message at the front of the input, or refuses it, and whose finds
do not depend on what arrives later. -/
structure Delimited (α : Type u) (β : Type v) (ε : Type w) where
  encode : α → List β
  take : List β → Except ε (Option (α × List β))
  Fits : α → Prop
  take_encode : ∀ a rest, Fits a →
    take (encode a++rest) = .ok (some (a,rest)) ∨ ∃ e, take (encode a++rest) = .error e
  take_append : ∀ {bytes a rest} more, take bytes = .ok (some (a,rest)) →
    take (bytes++more) = .ok (some (a,rest++more))
  take_nil : take [] = .ok none

namespace Delimited
variable {α : Type u} {β : Type v} {ε : Type w} (d : Delimited α β ε)

def stream (l : List α) : List β := l.flatMap d.encode

@[simp] theorem stream_nil : d.stream [] = [] := rfl

@[simp] theorem stream_cons (a : α) (l : List α) : d.stream (a::l) = d.encode a++d.stream l := rfl

variable {d}

theorem take_stream {l : List α} {bytes more rest : List β} {a : α} (hl : ∀ b ∈ l, d.Fits b)
    (hs : bytes++more = d.stream l) (ht : d.take bytes = .ok (some (a,rest))) :
    ∃ l', l = a::l' ∧ bytes = d.encode a++rest ∧ rest++more = d.stream l' := by
  have hla := d.take_append more ht
  cases l with
  | nil =>
    obtain ⟨rfl,_⟩ := append_eq_nil_iff.1 hs
    rw [d.take_nil] at ht
    cases ht
  | cons b l =>
    rw [hs,stream_cons] at hla
    rcases d.take_encode b (d.stream l) (hl b mem_cons_self) with hok | ⟨e,he⟩
    · rw [hok] at hla
      simp only [Except.ok.injEq,Option.some.injEq,Prod.mk.injEq] at hla
      obtain ⟨rfl,hr⟩ := hla
      refine ⟨l,rfl,?_,hr.symm⟩
      rw [stream_cons,hr,← append_assoc] at hs
      exact append_cancel_right hs
    · rw [he] at hla
      cases hla

end Delimited
end PgBattery
