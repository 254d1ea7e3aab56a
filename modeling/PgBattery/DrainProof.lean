import PgBattery.StateMachine
import PgBattery.SqlReply
import PgBattery.TransitionSystem

/-! The drain proof: a donor compares its logical slots with the sealed position, and a later log entry
records that the drain was observed. -/
namespace PgBattery
namespace DrainProof
open StateMachine SqlReply TransitionSystem List

structure Slot where
  name : String
  logical : Bool
  confirmedFlushLsn : Option U64
  deriving DecidableEq

structure RetentionReply where
  slotCount : ℕ
  unconfirmed : ℕ
  minConfirmedText : Text

def donorRetention (slots : List Slot) : RetentionReply :=
  let rows := slots.filter Slot.logical
  -- `min` skips NULLs
  let confirmed := (rows.filterMap Slot.confirmedFlushLsn).min?
  ⟨rows.length,rows.countP fun s => s.confirmedFlushLsn = none,(confirmed.map lsnText).getD []⟩

def parseLsnStrict (text : Text) : Option U64 := parseLsnBytes (trim text)

/-- `min_confirmed_flush_lsn` of the parsed line; the outer option is a line that does not parse. -/
def parseDonorRetentionLine (r : RetentionReply) : Option (Option U64) :=
  if r.slotCount = 0 ∨ 0 < r.unconfirmed then some none
  else (parseLsnStrict r.minConfirmedText).map some

def confirmed (slots : List Slot) : Option U64 := (parseDonorRetentionLine (donorRetention slots)).join

def drainProven (confirmed sealed : Option U64) : Bool :=
  match confirmed,sealed with
  | some c,some s => s ≤ c
  | _,_ => false

theorem exists_of_confirmed {slots : List Slot} {c : U64} (h : confirmed slots = some c) {slot : Slot}
    (hs : slot ∈ slots) (hl : slot.logical) :
    ∃ lsn, slot.confirmedFlushLsn = some lsn ∧ c ≤ lsn := by
  have hr : slot ∈ slots.filter Slot.logical := mem_filter.2 ⟨hs,hl⟩
  rw [confirmed,parseDonorRetentionLine] at h
  split at h
  · cases h
  · next hc =>
    simp only [not_or,Nat.not_lt,Nat.le_zero] at hc
    have hso : slot.confirmedFlushLsn ≠ none := by
      intro hn
      exact countP_eq_zero.1 hc.2 slot hr (decide_eq_true hn)
    obtain ⟨lsn,hls⟩ := Option.ne_none_iff_exists'.1 hso
    have hm : lsn ∈ (slots.filter Slot.logical).filterMap Slot.confirmedFlushLsn :=
      mem_filterMap.2 ⟨slot,hr,hls⟩
    obtain ⟨least,hle⟩ := Option.isSome_iff_exists.1 (List.isSome_min?_of_mem hm)
    refine ⟨lsn,hls,?_⟩
    have hre : parseLsnStrict (donorRetention slots).minConfirmedText = some least := by
      rw [parseLsnStrict,donorRetention]
      dsimp only
      rw [hle,Option.map_some,Option.getD_some,trim_lsnText,parseLsnBytes_lsnText]
    rw [hre] at h
    cases h
    exact (List.min?_eq_some_iff.1 hle).2 lsn hm

structure World where
  state : ClusterState
  slots : List Slot
  /-- What the recipient's slot has confirmed so far. -/
  history : List U64
  /-- The sealed positions of the requests that have not read the slots yet. -/
  asked : List (Option U64) := []
  /-- The sealed positions of the requests whose entry is on its way. -/
  proposed : List (Option U64) := []

inductive Event
  | command (cmd : ClusterCommand)
  | slots (slots : List Slot)
  | ask
  | read (sealed : Option U64)
  | commit (sealed : Option U64)
  deriving DecidableEq

def shown (slot : String) (slots : List Slot) : Option U64 :=
  (slots.find? fun s => s.name = slot && s.logical).bind Slot.confirmedFlushLsn

/-- `cutover_drain_observed` reads the record, then the slots, and proposes; other commands, other
slots and other requests come in between. -/
def step (slot : String) (w : World) : Event → Option World
  | .command cmd =>
    if cmd = .cutoverDrainObserved then none else some {w with state := (w.state.apply cmd).1}
  | .slots slots => some {w with slots, history := (shown slot slots).toList++w.history}
  | .ask => some {w with asked := w.state.cutover.sealedFinalLsn::w.asked}
  | .read sealed =>
    if sealed ∈ w.asked then
      some {w with
        asked := w.asked.erase sealed,
        proposed := if drainProven (confirmed w.slots) sealed then sealed::w.proposed else w.proposed}
    else none
  | .commit sealed =>
    if sealed ∈ w.proposed then
      some {w with
        state := (w.state.apply .cutoverDrainObserved).1,
        proposed := w.proposed.erase sealed}
    else none

def Reached (w : World) (lsn : U64) : Prop := ∃ confirmed ∈ w.history, lsn ≤ confirmed

/-- Whenever the entry applies, the recipient's slot has confirmed through the position sealed then. -/
def safe (w : World) : Event → Prop
  | .commit sealed => sealed ∈ w.proposed → (w.state.apply .cutoverDrainObserved).2 = .applied →
    ∀ final, w.state.cutover.sealedFinalLsn = some final → Reached w final
  | _ => True

/-- The recipient's slot is among those read, and the record is not sealed at a later position than the
one the request compared them with. -/
def meets (slot : String) (w : World) : Event → Prop
  | .read _ => w.slots.any (fun s => s.name = slot && s.logical) = true
  | .commit sealed =>
    w.state.cutover.sealedFinalLsn.all (fun final => sealed.all (final ≤ ·)) = true
  | _ => True

structure Inv (slot : String) (w : World) : Prop where
  shown : ∀ lsn ∈ shown slot w.slots, lsn ∈ w.history
  proposed : ∀ sealed ∈ w.proposed, ∃ lsn, sealed = some lsn ∧ Reached w lsn

variable {slot : String} {w w' : World} {e : Event}

theorem exists_shown_of_drainProven {sealed : Option U64}
    (h : drainProven (confirmed w.slots) sealed)
    (hp : w.slots.any (fun s => s.name = slot && s.logical)) :
    ∃ lsn, sealed = some lsn ∧ ∃ c ∈ shown slot w.slots, lsn ≤ c := by
  cases hc : confirmed w.slots with
  | none =>
    rw [hc] at h
    cases h
  | some c =>
    rw [hc] at h
    cases sealed with
    | none => cases h
    | some lsn =>
      refine ⟨lsn,rfl,?_⟩
      have hf : (w.slots.find? fun s => s.name = slot && s.logical).isSome := by
        rw [List.find?_isSome]
        exact any_eq_true.1 hp
      obtain ⟨row,hr⟩ := Option.isSome_iff_exists.1 hf
      have hfi := List.find?_some hr
      have hl := (Bool.and_eq_true_iff.1 hfi).2
      obtain ⟨own,ho,hle⟩ := exists_of_confirmed hc (List.mem_of_find?_eq_some hr) hl
      refine ⟨own,?_,(of_decide_eq_true h).trans hle⟩
      rw [shown,hr]
      exact ho

theorem inv_step (h : Inv slot w) (hm : meets slot w e) (hst : step slot w e = some w') :
    Inv slot w' := by
  revert hst
  fun_cases step slot w e <;> intro hst <;> cases hst
  · exact {h with}
  · refine ⟨fun lsn hl => ?_,fun sealed hs => ?_⟩
    · exact mem_append_left _ (Option.mem_toList.2 hl)
    · obtain ⟨lsn,heq,c,hc,hle⟩ := h.proposed sealed hs
      exact ⟨lsn,heq,c,mem_append_right _ hc,hle⟩
  · exact {h with}
  · refine ⟨h.shown,fun other hs => ?_⟩
    dsimp only at hs
    split at hs
    · next hp =>
      rcases mem_cons.1 hs with rfl | hs
      · obtain ⟨lsn,heq,c,hc,hle⟩ := exists_shown_of_drainProven hp hm
        exact ⟨lsn,heq,c,h.shown c hc,hle⟩
      · exact h.proposed other hs
    · exact h.proposed other hs
  · exact ⟨h.shown,fun other hs => h.proposed other (mem_of_mem_erase hs)⟩

theorem safe_of_meets (h : Inv slot w) (hm : meets slot w e) : safe w e := by
  cases e with
  | commit sealed =>
    intro hme _ final hf
    obtain ⟨lsn,heq,c,hc,hle⟩ := h.proposed sealed hme
    have hs : final ≤ lsn := by
      change Option.all _ _ = true at hm
      rw [hf,heq] at hm
      exact of_decide_eq_true hm
    exact ⟨c,hc,hs.trans hle⟩
  | _ => trivial

def start (slot : String) (state : ClusterState) (slots : List Slot) : World :=
  {state, slots, history := (shown slot slots).toList}

theorem inv_start (slot : String) (state : ClusterState) (slots : List Slot) :
    Inv slot (start slot state slots) :=
  ⟨fun _ h => Option.mem_toList.2 h,fun _ h => absurd h not_mem_nil⟩

/-- With the recipient's slot among those read and no later seal in between, every drain entry that
applies is about the position it applies to. -/
theorem drain_observed_proven (slot : String) (state : ClusterState) (slots : List Slot)
    (events : List Event)
    (hmeets : Guarded (step slot) (meets slot) (start slot state slots) events) :
    Guarded (step slot) safe (start slot state slots) events :=
  hmeets.imp (fun _ _ _ hi hg hs => inv_step hi hg hs) (fun _ _ hi hg => safe_of_meets hi hg)
    (inv_start slot state slots)

section Runs

def armed : ClusterState :=
  {featureLevel := 1, cutover := {phase := .armed, authorityClusterId := some "donor"}}

def recipientSlot : String := "pgbattery_cutover"

def drainedRun : List Event :=
  [.command (.cutoverSealing ["app"]),.command (.cutoverSeal 16),
    .slots [⟨recipientSlot,true,some 16⟩,⟨"audit",true,some 20⟩],.ask,.read (some 16),.commit (some 16)]

instance instDecidableMeets (slot : String) (w : World) (e : Event) : Decidable (meets slot w e) := by
  unfold meets
  split <;> infer_instance

theorem drain_observed_proven_run :
    (run (step recipientSlot) (start recipientSlot armed []) drainedRun).any
      (fun w => w.state.cutover.phase = .draining) = true ∧
    Guarded (step recipientSlot) safe (start recipientSlot armed []) drainedRun := by
  have hm : Guarded (step recipientSlot) (meets recipientSlot) (start recipientSlot armed [])
      drainedRun := by decide +kernel
  exact ⟨by decide +kernel,drain_observed_proven recipientSlot armed [] drainedRun hm⟩

/-- The recipient has no slot, and an unrelated consumer has confirmed everything. -/
def unrelatedRun : List Event :=
  [.command (.cutoverSealing ["app"]),.command (.cutoverSeal 16),.slots [⟨"audit",true,some 20⟩],
    .ask,.read (some 16)]

/-- The cutover is aborted and sealed again, further on, while the entry is on its way. -/
def resealedRun : List Event :=
  [.command (.cutoverSealing ["app"]),.command (.cutoverSeal 16),.slots [⟨recipientSlot,true,some 16⟩],
    .ask,.read (some 16),.command (.cutoverAbortUnseal "donor"),
    .command (.cutoverArmed "recipient" "donor"),.command (.cutoverSealing ["app"]),
    .command (.cutoverSeal 32)]

def unproven (w : World) : Bool :=
  w.proposed.contains (some 16) && (w.state.apply .cutoverDrainObserved).2 = .applied &&
    w.state.cutover.sealedFinalLsn.any fun final => w.history.all (· < final)

theorem not_safe_of_unproven (h : unproven w) : ¬safe w (.commit (some 16)) := by
  simp only [unproven,Bool.and_eq_true,decide_eq_true_eq,Option.any_eq_true,all_eq_true] at h
  obtain ⟨⟨hm,ha⟩,final,hf,hb⟩ := h
  intro hs
  obtain ⟨c,hc,hle⟩ := hs (List.contains_iff_mem.1 hm) ha final hf
  exact absurd hle (not_le.2 (hb c hc))

theorem drain_observed_unproven : [unrelatedRun,resealedRun].Forall fun events => ∃ w,
    run (step recipientSlot) (start recipientSlot armed []) events = some w ∧
    ¬safe w (.commit (some 16)) := by
  have hr : [unrelatedRun,resealedRun].all (fun events =>
      (run (step recipientSlot) (start recipientSlot armed []) events).any unproven) := by
    decide +kernel
  rw [forall_iff_forall_mem]
  intro events he
  obtain ⟨w,hw,hu⟩ := (Option.any_eq_true _ _).1 (all_eq_true.1 hr events he)
  exact ⟨w,hw,not_safe_of_unproven hu⟩

end Runs
end DrainProof
end PgBattery
