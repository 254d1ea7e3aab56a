import PgBattery.Following

/-! The physical replication slots a leader keeps, one for each other member, and the names by which it
knows its own. -/
namespace PgBattery
namespace ReplicationSlots
open SqlReply Following List

variable {id : U64} {name : Text}

section Names

def slotWord : Text := "replica_".toList

/-- `Display` of the slot that serves a node. -/
def slotName (id : U64) : Text := slotWord++Nat.toDigits 10 id.val

/-- `FromStr`: the node a slot serves, if the name is one of ours. -/
def slotNode (name : Text) : Option U64 :=
  if slotWord.isPrefixOf name then parseU64 (name.drop slotWord.length) else none

theorem isDigit_of_mem_toDigits {n : ℕ} {c : Char} (h : c ∈ Nat.toDigits 10 n) : c.isDigit :=
  Nat.isDigit_of_mem_toDigits (b := 10) (by decide) (by decide) h

variable {s : Text}

theorem parseU64_eq (h : ∀ c ∈ s, c.isDigit) (hne : s ≠ []) (id : U64)
    (hid : Nat.ofDigitChars 10 s 0 = id.val) : parseU64 s = some id := by
  have hs : ∀ rest, s ≠ '+' ::rest := by
    rintro rest rfl
    exact absurd (h '+' mem_cons_self) (by decide)
  unfold parseU64
  split
  next rest => exact absurd rfl (hs rest)
  next =>
    dsimp only
    rw [if_neg hne,foldlM_digits h,hid]
    simp

theorem slotNode_slotName (id : U64) : slotNode (slotName id) = some id := by
  have hw : slotWord.isPrefixOf (slotName id) := isPrefixOf_iff_prefix.2 ⟨_,rfl⟩
  rw [slotNode,if_pos hw,slotName,drop_left]
  exact parseU64_eq (fun c hc => isDigit_of_mem_toDigits hc) Nat.toDigits_ne_nil id
    Nat.ofDigitChars_ten_toDigits

theorem slotName_injective : Function.Injective slotName := fun id id' h => by
  have hn := slotNode_slotName id
  rw [h,slotNode_slotName] at hn
  exact (Option.some.inj hn).symm

/-- A numeral as it is written: no sign, and no zero in front. -/
def Canonical (digits : Text) : Prop := digits.head? ≠ some '+' ∧ (digits = ['0'] ∨ digits.head? ≠ some '0')

instance instDecidableCanonical (digits : Text) : Decidable (Canonical digits) :=
  inferInstanceAs (Decidable (_ ∧ _))

theorem digitChar_sub {c : Char} (h : c.isDigit) : Nat.digitChar (c.toNat-48) = c := by
  have hc : 48 ≤ c.toNat ∧ c.toNat ≤ 57 := by
    simp only [Char.isDigit,ge_iff_le,Bool.and_eq_true,decide_eq_true_eq,UInt32.le_iff_toNat_le] at h
    exact h
  obtain ⟨hl,hh⟩ := hc
  apply Char.toNat_inj.1
  interval_cases hn : c.toNat <;> rfl

theorem ofDigitChars_concat (s : Text) (c : Char) :
    Nat.ofDigitChars 10 (s++[c]) 0 = 10*Nat.ofDigitChars 10 s 0+(c.toNat-48) := by
  rw [Nat.ofDigitChars_append,Nat.ofDigitChars_cons,Nat.ofDigitChars_nil]
  rfl

/-- Digits without a zero in front are the ones their number is written with; induction on the digits
from the last. -/
theorem toDigits_ofDigitChars (h : ∀ c ∈ s, c.isDigit) (hne : s ≠ []) (hz : s.head? ≠ some '0') :
    Nat.toDigits 10 (Nat.ofDigitChars 10 s 0) = s := by
  induction s using List.reverseRecOn with
  | nil => exact absurd rfl hne
  | append_singleton s c ih =>
    have hc : c.isDigit := h c (mem_append_right _ (mem_singleton_self c))
    have hlt : c.toNat-48 < 10 := by
      simp only [Char.isDigit,ge_iff_le,Bool.and_eq_true,decide_eq_true_eq,UInt32.le_iff_toNat_le] at hc
      have : c.toNat ≤ 57 := hc.2
      omega
    rw [ofDigitChars_concat]
    by_cases hs : s = []
    · subst hs
      rw [Nat.ofDigitChars_nil,Nat.mul_zero,Nat.zero_add,Nat.toDigits_of_lt_base hlt,digitChar_sub hc]
      rfl
    · have hh : s.head? ≠ some '0' := by
        rwa [List.head?_append_of_ne_nil _ hs] at hz
      have hr := ih (fun d hd => h d (mem_append_left _ hd)) hs hh
      have hp : 0 < Nat.ofDigitChars 10 s 0 := by
        rcases Nat.eq_zero_or_pos (Nat.ofDigitChars 10 s 0) with hn | hp
        · rw [hn,Nat.toDigits_zero] at hr
          rw [← hr] at hh
          exact absurd rfl hh
        · exact hp
      rw [Nat.toDigits_of_base_le (by decide) (by omega)]
      have hq : (10*Nat.ofDigitChars 10 s 0+(c.toNat-48))/10 = Nat.ofDigitChars 10 s 0 := by omega
      have hm : (10*Nat.ofDigitChars 10 s 0+(c.toNat-48))%10 = c.toNat-48 := by omega
      rw [hq,hm,hr,digitChar_sub hc]

theorem isDigit_of_le {c : Char} (h : '0' ≤ c ∧ c ≤ '9') : c.isDigit := by
  simp only [Char.isDigit,ge_iff_le,Bool.and_eq_true,decide_eq_true_eq]
  exact h

theorem isDigit_of_foldlM {n m : ℕ}
    (h : s.foldlM (fun n c => if '0' ≤ c ∧ c ≤ '9' then some (n*10+(c.toNat-48)) else none) n = some m)
    : ∀ c ∈ s, c.isDigit := by
  induction s generalizing n with
  | nil => simp
  | cons c s ih =>
    rw [foldlM_cons] at h
    by_cases hc : '0' ≤ c ∧ c ≤ '9'
    · rw [if_pos hc] at h
      exact forall_mem_cons.2 ⟨isDigit_of_le hc,ih h⟩
    · rw [if_neg hc] at h
      cases h

theorem digits_of_parseU64 (h : parseU64 s = some id) (hs : s.head? ≠ some '+') :
    s ≠ [] ∧ (∀ c ∈ s, c.isDigit) ∧ Nat.ofDigitChars 10 s 0 = id.val := by
  have hd : s ≠ [] ∧ ∀ c ∈ s, c.isDigit := by
    unfold parseU64 at h
    split at h
    next rest => exact absurd rfl hs
    next =>
      dsimp only at h
      split at h
      next => cases h
      next hne =>
        obtain ⟨n,hn,-⟩ := Option.bind_eq_some_iff.1 h
        exact ⟨hne,isDigit_of_foldlM hn⟩
  exact ⟨hd.1,hd.2,(parseU64_digits hd.2 h).symm⟩

theorem slotNode_eq_some (h : slotNode name = some id) :
    name = slotWord++name.drop slotWord.length ∧ parseU64 (name.drop slotWord.length) = some id := by
  rw [slotNode] at h
  split at h
  next hw =>
    obtain ⟨rest,rfl⟩ := isPrefixOf_iff_prefix.1 hw
    rw [drop_left]
    exact ⟨rfl,by rwa [drop_left] at h⟩
  next => cases h

theorem canonical_toDigits (n : ℕ) : Canonical (Nat.toDigits 10 n) := by
  induction n using Nat.strong_induction_on with
  | h n ih =>
    by_cases hn : n < 10
    · rw [Nat.toDigits_of_lt_base hn]
      interval_cases n <;> decide
    · have hq := ih (n/10) (by omega)
      have hne : Nat.toDigits 10 (n/10) ≠ [] := Nat.toDigits_ne_nil
      have hp : Nat.toDigits 10 (n/10) ≠ ['0'] := by
        intro h
        have := @Nat.ofDigitChars_ten_toDigits (n/10)
        rw [h] at this
        have hz : (n/10) = 0 := this.symm
        omega
      rw [Nat.toDigits_of_base_le (by decide) (by omega),Canonical,List.head?_append_of_ne_nil _ hne]
      exact ⟨hq.1,.inr (hq.2.resolve_left hp)⟩

/-- Of the names that are read as ours, the ones we mint are those whose number is written our way. -/
theorem eq_slotName_iff (h : slotNode name = some id) :
    name = slotName id ↔ Canonical (name.drop slotWord.length) := by
  obtain ⟨hn,hp⟩ := slotNode_eq_some h
  constructor
  · rintro rfl
    rw [slotName,drop_left]
    exact canonical_toDigits id.val
  · rintro ⟨hs,hz⟩
    obtain ⟨hne,hd,hv⟩ := digits_of_parseU64 hp hs
    have hw : Nat.toDigits 10 id.val = name.drop slotWord.length := by
      rcases hz with hz | hz
      · rw [hz] at hv ⊢
        rw [← hv]
        rfl
      · rw [← hv]
        exact toDigits_ofDigitChars hd hne hz
    rw [slotName,hw]
    exact hn

end Names

section Plan

def served (existing : Finset Text) : Finset U64 := (existing.image slotNode).eraseNone

/-- `plan_slot_reconciliation`: the slots to create, and the slots to drop. -/
def planSlotReconciliation (targetIds : List U64) (existingSlots : Finset Text) : List U64 × List U64 :=
  let existing := served existingSlots
  let desired := targetIds.toFinset
  ((desired\existing).sort,(existing\desired).sort)

def createReplicationSlot (slots : Finset Text) (id : U64) : Finset Text :=
  if slotName id ∈ slots then slots else insert (slotName id) slots

def dropReplicationSlot (slots : Finset Text) (id : U64) : Finset Text :=
  if slotName id ∉ slots then slots else slots.erase (slotName id)

def sweepSlots (targetIds : List U64) (existingSlots : Finset Text) : Finset Text :=
  let plan := planSlotReconciliation targetIds existingSlots
  plan.2.foldl dropReplicationSlot (plan.1.foldl createReplicationSlot existingSlots)

variable {existing slots : Finset Text} {ids targets : List U64}

theorem mem_served : id ∈ served existing ↔ ∃ name ∈ existing, slotNode name = some id := by
  rw [served,Finset.mem_eraseNone,Finset.mem_image]

@[simp] theorem mem_createReplicationSlot :
    name ∈ createReplicationSlot slots id ↔ name = slotName id ∨ name ∈ slots := by
  rw [createReplicationSlot]
  split
  next h =>
    constructor
    · exact .inr
    · rintro (rfl | hn)
      exacts [h,hn]
  next => exact Finset.mem_insert

@[simp] theorem mem_dropReplicationSlot :
    name ∈ dropReplicationSlot slots id ↔ name ≠ slotName id ∧ name ∈ slots := by
  rw [dropReplicationSlot]
  split
  next h =>
    refine ⟨fun hn => ⟨?_,hn⟩,And.right⟩
    rintro rfl
    exact h hn
  next => exact Finset.mem_erase

theorem mem_foldl_create :
    name ∈ ids.foldl createReplicationSlot slots ↔ (∃ id ∈ ids, name = slotName id) ∨ name ∈ slots := by
  induction ids generalizing slots with
  | nil => simp
  | cons id ids ih =>
    simp only [foldl_cons,ih,mem_createReplicationSlot,mem_cons,exists_eq_or_imp]
    rw [or_left_comm,or_assoc]

theorem mem_foldl_drop :
    name ∈ ids.foldl dropReplicationSlot slots ↔ (∀ id ∈ ids, name ≠ slotName id) ∧ name ∈ slots := by
  induction ids generalizing slots with
  | nil => simp
  | cons id ids ih =>
    rw [foldl_cons,ih,mem_dropReplicationSlot,forall_mem_cons]
    tauto

theorem mem_sweepSlots :
    name ∈ sweepSlots targets existing ↔
      (∀ id ∈ served existing, id ∉ targets → name ≠ slotName id) ∧
        ((∃ id ∈ targets, id ∉ served existing ∧ name = slotName id) ∨ name ∈ existing) := by
  simp only [sweepSlots,planSlotReconciliation,mem_foldl_drop,mem_foldl_create,Finset.mem_sort,
    Finset.mem_sdiff,mem_toFinset,and_imp,and_assoc]

/-- The slots a sweep leaves are one for each target under the name we mint for it, with whatever is not
ours left alone and nothing left to do. -/
def Reconciles (targets : List U64) (existing : Finset Text) : Prop :=
  (sweepSlots targets existing).filter (fun name => (slotNode name).isSome) = targets.toFinset.image slotName ∧
    (∀ name, (∀ id, name ≠ slotName id) → (name ∈ sweepSlots targets existing ↔ name ∈ existing)) ∧
      planSlotReconciliation targets (sweepSlots targets existing) = ([],[])

theorem sweepSlots_foreign (h : ∀ id, name ≠ slotName id) :
    name ∈ sweepSlots targets existing ↔ name ∈ existing := by
  rw [mem_sweepSlots]
  constructor
  · rintro ⟨-,⟨id,-,-,hn⟩ | hn⟩
    · exact absurd hn (h id)
    · exact hn
  · intro hn
    exact ⟨fun id _ _ => h id,.inr hn⟩

theorem planSlotReconciliation_eq_nil (h : served slots = targets.toFinset) :
    planSlotReconciliation targets slots = ([],[]) := by
  rw [planSlotReconciliation,h]
  simp

theorem served_eq
    (h : slots.filter (fun name => (slotNode name).isSome) = targets.toFinset.image slotName) :
    served slots = targets.toFinset := by
  ext id
  rw [mem_served]
  constructor
  · rintro ⟨name,hn,hid⟩
    have hours : name ∈ targets.toFinset.image slotName := by
      rw [← h,Finset.mem_filter]
      exact ⟨hn,by rw [hid]; rfl⟩
    obtain ⟨id',hi',rfl⟩ := Finset.mem_image.1 hours
    rw [slotNode_slotName] at hid
    cases hid
    exact hi'
  · intro hid
    have hs : slotName id ∈ slots.filter (fun name => (slotNode name).isSome) := by
      rw [h]
      exact Finset.mem_image_of_mem slotName hid
    exact ⟨slotName id,(Finset.mem_filter.1 hs).1,slotNode_slotName id⟩

theorem sweepSlots_ours (targets : List U64)
    (h : ∀ name ∈ existing, ∀ id, slotNode name = some id → name = slotName id) :
    (sweepSlots targets existing).filter (fun name => (slotNode name).isSome) =
      targets.toFinset.image slotName := by
  ext name
  simp only [Finset.mem_filter,Finset.mem_image,mem_toFinset]
  constructor
  · rintro ⟨hn,hours⟩
    obtain ⟨id,hid⟩ := Option.isSome_iff_exists.1 hours
    obtain ⟨hk,⟨id',hi',-,rfl⟩ | hold⟩ := mem_sweepSlots.1 hn
    · exact ⟨id',hi',rfl⟩
    · obtain rfl := h name hold id hid
      by_cases ht : id ∈ targets
      · exact ⟨id,ht,rfl⟩
      · exact absurd rfl (hk id (mem_served.2 ⟨_,hold,hid⟩) ht)
  · rintro ⟨id,hid,rfl⟩
    refine ⟨mem_sweepSlots.2 ⟨?_,?_⟩,by rw [slotNode_slotName]; rfl⟩
    · rintro id' - hi' heq
      rw [slotName_injective heq] at hid
      exact hi' hid
    · by_cases hs : id ∈ served existing
      · obtain ⟨name,hn,hno⟩ := mem_served.1 hs
        rw [← h name hn id hno]
        exact .inr hn
      · exact .inl ⟨id,hid,hs,rfl⟩

theorem canonical_of_reconciles (h : Reconciles targets existing) (hn : name ∈ existing)
    (hid : slotNode name = some id) : Canonical (name.drop slotWord.length) := by
  by_contra hw
  have hf : ∀ id', name ≠ slotName id' := by
    rintro id' rfl
    rw [slotNode_slotName] at hid
    cases hid
    exact hw ((eq_slotName_iff (slotNode_slotName id)).1 rfl)
  -- the name is left where it was, is still read as ours and is nobody's slot
  have hl : name ∈ (sweepSlots targets existing).filter (fun name => (slotNode name).isSome) :=
    Finset.mem_filter.2 ⟨(sweepSlots_foreign hf).2 hn,by rw [hid]; rfl⟩
  rw [h.1,Finset.mem_image] at hl
  obtain ⟨id',-,heq⟩ := hl
  exact hf id' heq.symm

/-- Slots are reconciled exactly when no name that is read as ours writes its node differently. -/
theorem reconciles_iff (targets : List U64) (existing : Finset Text) :
    Reconciles targets existing ↔
      ∀ name ∈ existing, ∀ id, slotNode name = some id → Canonical (name.drop slotWord.length) := by
  constructor
  · intro h name hn id hid
    exact canonical_of_reconciles h hn hid
  · intro h
    have hours := sweepSlots_ours targets fun name hn id hid =>
      (eq_slotName_iff hid).2 (h name hn id hid)
    exact ⟨hours,fun name hn => sweepSlots_foreign hn,
      planSlotReconciliation_eq_nil (served_eq hours)⟩

def leadingZeros : Finset Text := {"replica_007".toList}

theorem served_leadingZeros : served leadingZeros = {7} := by decide

/-- A slot `replica_007` is read as node 7's, so node 7 is given none; and it is not dropped when node 7
goes, since the name dropped is `replica_7`. -/
theorem leadingZeros_unreconciled :
    planSlotReconciliation [7] leadingZeros = ([],[]) ∧ slotName 7 ∉ sweepSlots [7] leadingZeros ∧
      ¬Reconciles [7] leadingZeros ∧
        "replica_007".toList ∈ sweepSlots [] leadingZeros ∧ ¬Reconciles [] leadingZeros := by
  have hn : slotNode "replica_007".toList = some 7 ∧
      ¬Canonical ("replica_007".toList.drop slotWord.length) := by decide
  have hno : ∀ targets, ¬Reconciles targets leadingZeros := fun targets h =>
    hn.2 (canonical_of_reconciles h (Finset.mem_singleton_self _) hn.1)
  refine ⟨planSlotReconciliation_eq_nil served_leadingZeros,?_,hno [7],?_,hno []⟩
  · rw [mem_sweepSlots,served_leadingZeros]
    rintro ⟨-,⟨id,hid,hs,-⟩ | hold⟩
    · exact hs (Finset.mem_singleton.2 (mem_singleton.1 hid))
    · exact absurd hold (by decide)
  · refine mem_sweepSlots.2 ⟨?_,.inr (Finset.mem_singleton_self _)⟩
    rw [served_leadingZeros]
    rintro id hid -
    rw [Finset.mem_singleton.1 hid]
    decide

end Plan

end ReplicationSlots
end PgBattery
