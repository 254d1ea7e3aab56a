import Mathlib

/-! Histories: lists of entries at strictly increasing positions. Of two histories on one branch the
one that ends further on contains the other. -/
namespace PgBattery
open List
universe u v

structure History {ε : Type u} {β : Type v} [LinearOrder β] [OrderBot β] (key : ε → β) where
  entries : List ε
  increasing : (⊥::entries.map key).Pairwise (· < ·)

namespace History
variable {ε : Type u} {β : Type v} [LinearOrder β] [OrderBot β] {key : ε → β}

def empty : History key := ⟨[],by simp⟩

/-- The position of the last entry. -/
def position (h : History key) : β := (h.entries.map key).getLast?.getD ⊥

/-- One history continues the other. -/
def Comparable (h k : History key) : Prop := h.entries <+: k.entries ∨ k.entries <+: h.entries

instance [DecidableEq ε] (h k : History key) : Decidable (Comparable h k) :=
  inferInstanceAs (Decidable (_ ∨ _))

theorem key_le_position (h : History key) {e : ε} (he : e ∈ h.entries) : key e ≤ h.position := by
  obtain ⟨entries,hi⟩ := h
  rw [position]
  rcases eq_nil_or_concat entries with rfl | ⟨l,last,rfl⟩
  · cases he
  · simp only [concat_eq_append,map_append,map_cons,map_nil,
      List.getLast?_append,List.getLast?_singleton,Option.some_or,Option.getD_some]
    simp only [concat_eq_append,mem_append,mem_singleton] at he
    rcases he with he | rfl
    · simp only [concat_eq_append,map_append,pairwise_cons,
        pairwise_append] at hi
      exact (hi.2.2.2 _ (mem_map_of_mem he) _ (by simp)).le
    · exact le_rfl

theorem position_eq_bot_or (h : History key) : h.position = ⊥ ∨ ∃ e ∈ h.entries, h.position = key e := by
  rw [position]
  cases hl : (h.entries.map key).getLast? with
  | none => exact .inl rfl
  | some b =>
    obtain ⟨e,he,rfl⟩ := mem_map.1 (List.mem_of_getLast? hl)
    exact .inr ⟨e,he,rfl⟩

theorem position_mono {h k : History key} (hp : h.entries <+: k.entries) : h.position ≤ k.position := by
  rcases position_eq_bot_or h with hb | ⟨e,he,hk⟩
  · rw [hb]
    exact bot_le
  · rw [hk]
    exact key_le_position k (hp.subset he)

theorem position_lt_of_append {h k : History key} {l : List ε} (hk : k.entries = h.entries++l)
    {e : ε} (he : e ∈ l) : h.position < key e := by
  have hi := k.increasing
  rw [hk,map_append,pairwise_cons,pairwise_append] at hi
  rcases position_eq_bot_or h with hb | ⟨e',he',hp⟩
  · rw [hb]
    exact hi.1 _ (mem_append_right _ (mem_map_of_mem he))
  · rw [hp]
    exact hi.2.2.2 _ (mem_map_of_mem he') _ (mem_map_of_mem he)

theorem prefix_of_position_le {h k : History key} (hc : Comparable h k)
    (hle : h.position ≤ k.position) : h.entries <+: k.entries := by
  rcases hc with hp | ⟨l,hl⟩
  · exact hp
  · cases l with
    | nil => exact ⟨[],by simpa using hl.symm⟩
    | cons e l =>
      have hlt := position_lt_of_append hl.symm (mem_cons_self (a := e) (l := l))
      have hl' := key_le_position h (hl ▸ mem_append_right _ (mem_cons_self (a := e) (l := l)))
      exact absurd (hlt.trans_le hl') (not_lt.2 hle)

def take (h : History key) (n : ℕ) : History key :=
  ⟨h.entries.take n,h.increasing.sublist (((List.take_sublist n h.entries).map key).cons_cons ⊥)⟩

def append (h : History key) (e : ε) (hlt : h.position < key e) : History key where
  entries := h.entries++[e]
  increasing := by
    have hinc := h.increasing
    rw [List.map_append,← List.cons_append,List.pairwise_append]
    refine ⟨hinc,by simp,?_⟩
    intro a ha b hb
    simp only [List.map_cons,List.map_nil,List.mem_singleton] at hb
    subst hb
    rcases List.mem_cons.1 ha with rfl | ha
    · exact lt_of_le_of_lt bot_le hlt
    · obtain ⟨e',he',rfl⟩ := List.mem_map.1 ha
      exact (key_le_position h he').trans_lt hlt

def common [DecidableEq ε] : List ε → List ε → List ε
  | a::l, b::m => if a = b then a::common l m else []
  | [], _ | _::_, [] => []

theorem prefix_common [DecidableEq ε] {x l m : List ε} (hl : x <+: l) (hm : x <+: m) :
    x <+: common l m := by
  induction x generalizing l m with
  | nil => exact nil_prefix
  | cons a x ih =>
    obtain ⟨l',rfl⟩ := hl
    obtain ⟨m',rfl⟩ := hm
    simp only [cons_append,common,if_true]
    exact List.cons_prefix_cons.2 ⟨rfl,ih (prefix_append x l') (prefix_append x m')⟩

end History
end PgBattery
