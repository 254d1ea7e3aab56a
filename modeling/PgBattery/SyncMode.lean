import PgBattery.Replication
import PgBattery.Rewind
import PgBattery.TransitionSystem

/-! The leader's passes over `synchronous_standby_names` and the committed sync mode. The list is
written to PostgreSQL, the mode is proposed to the log, and each write may fail or land late on its
own. -/
namespace PgBattery
namespace SyncMode
open StateMachine Replication TransitionSystem List

def pgRewindDivergenceThresholdBytes : U64 := 16777216

def rewindBudget (s : ClusterState) : Rewind.RewindBudget :=
  match s.syncReplicationActive with
  | some true => .unbounded
  | some false | none => .bytes pgRewindDivergenceThresholdBytes

theorem sync_of_unbounded {s : ClusterState} (h : rewindBudget s = .unbounded) :
    s.syncReplicationActive = some true := by
  unfold rewindBudget at h
  split at h
  · assumption
  · cases h
  · cases h

structure Guc (α : Type) where
  live : α
  onReload : α
  deriving DecidableEq

/-- How a write of a setting ends: confirmed, without effect, in the file only, or in force though
the caller sees a failure or a timeout. -/
inductive Write
  | done
  | lost
  | filed
  | unconfirmed
  deriving DecidableEq

def Guc.write {α : Type} (g : Guc α) (a : α) : Write → Guc α
  | .done | .unconfirmed => ⟨a,a⟩
  | .lost => g
  | .filed => {g with onReload := a}

def Guc.reload {α : Type} (g : Guc α) : Guc α := ⟨g.onReload,g.onReload⟩

structure View where
  voters : Finset NodeId
  hasQuorum : Bool
  committedSync : Option Bool

/-- Where a pass stands between two awaits; the last argument is the mode it will propose. -/
inductive Pass
  | idle
  | observing (view : View)
  | installing (view : View) (list : String)
  | probing (view : View) (effect : Option Bool)
  | opening (view : View) (effect : Option Bool)
  | ending (effect : Option Bool)

/-- `promoting` says that `pg_ctl promote` has been run: the server may leave recovery at any time. -/
structure Leader where
  log : ClusterState
  inRecovery : Bool
  promoting : Bool
  readOnly : Guc Bool
  list : Guc String
  outstanding : List Bool
  pass : Pass

structure Probe where
  syncStandbys : ℕ
  leaseValid : Bool
  held : Bool

inductive Event
  | beginPass (hasQuorum : Bool)
  | stats (sample : Option (ℕ × Bool))
  | install (result : Write)
  | probe (sample : Option Probe)
  | setReadonly (result : Write)
  | finish
  | commit (i : ℕ)
  | abandon (i : ℕ)
  | membership (voters : Finset NodeId)
  | reload
  | fence (result : Write)
  | promote (voters : Finset NodeId) (listed fenced : Write)
  | leaveRecovery
  | demote (readOnly : Guc Bool) (list : Guc String)

section Pass
variable (nodeId : NodeId)

def required (voters : Finset NodeId) : ℕ := requiredSyncStandbys (peerVoterNames voters nodeId).length

/-- The list a pass wants, from how many voters stream and whether the leader is new. -/
def plannedList (view : View) (healthy : ℕ) (inGrace : Bool) : String :=
  let peers := peerVoterNames view.voters nodeId
  match (planSyncReplication peers.length healthy view.hasQuorum inGrace).1 with
  | .fullList => syncStandbyList peers
  | .asyncFallback => ""

/-- An emptied list waits for async to be committed. -/
def installs (view : View) (list : String) : Bool := list ≠ "" || view.committedSync = some false

def proposal (view : View) (list : String) : Option Bool :=
  if view.committedSync ≠ some (decide (list ≠ "")) ∧ view.hasQuorum then some (decide (list ≠ ""))
  else none

def openWrites (s : Leader) (view : View) (effect : Option Bool) : Option Probe → Pass
  | none => .ending effect
  | some p =>
    if s.inRecovery then .ending effect
    else if s.readOnly = ⟨false,false⟩ then .ending effect
    else if writesMayOpen (s.list.live = "") p.syncStandbys (required nodeId view.voters)
        (view.committedSync = some false) ∧ p.leaseValid ∧ ¬ p.held then .opening view effect
    else .ending effect

def promotionList (voters : Finset NodeId) : String := syncStandbyList (peerVoterNames voters nodeId)

/-- Neither write that fails aborts the promotion, and without a standby to wait for there is no
fence. -/
def armPromotionWriteGate (s : Leader) (list : String) (listed fenced : Write) : Leader :=
  let s := {s with list := s.list.write list listed}
  if list = "" then s else {s with readOnly := s.readOnly.write true fenced}

def step (s : Leader) : Event → Option Leader
  | .beginPass hasQuorum => match s.pass with
    | .idle => some {s with
        pass := .observing ⟨s.log.voterIds,hasQuorum,s.log.syncReplicationActive⟩}
    | .observing _ | .installing .. | .probing .. | .opening .. | .ending _ => none
  | .stats sample => match s.pass,sample with
    | .observing _,none => some {s with pass := .ending none}
    | .observing view,some (healthy,inGrace) =>
      if s.inRecovery then none
      else
        let list := plannedList nodeId view healthy inGrace
        some {s with pass :=
          if installs view list then .installing view list else .probing view (proposal view list)}
    | .idle,_ | .installing ..,_ | .probing ..,_ | .opening ..,_ | .ending _,_ => none
  | .install result => match s.pass with
    | .installing view list => some {s with
        list := s.list.write list result, pass := .probing view (proposal view list)}
    | .idle | .observing _ | .probing .. | .opening .. | .ending _ => none
  | .probe sample => match s.pass with
    | .probing view effect => some {s with pass := openWrites nodeId s view effect sample}
    | .idle | .observing _ | .installing .. | .opening .. | .ending _ => none
  | .setReadonly result => match s.pass with
    | .opening _ effect => some {s with
        readOnly := s.readOnly.write false result, pass := .ending effect}
    | .idle | .observing _ | .installing .. | .probing .. | .ending _ => none
  | .finish => match s.pass with
    | .ending effect => some {s with outstanding := s.outstanding++effect.toList, pass := .idle}
    | .idle | .observing _ | .installing .. | .probing .. | .opening .. => none
  | .commit i => s.outstanding[i]?.map fun active => {s with
      log := (s.log.apply (.setSyncMode active)).1, outstanding := s.outstanding.eraseIdx i}
  | .abandon i => some {s with outstanding := s.outstanding.eraseIdx i}
  | .membership voters => some {s with log := {s.log with voterIds := voters}}
  | .reload => some {s with list := s.list.reload, readOnly := s.readOnly.reload}
  | .fence result => some {s with readOnly := s.readOnly.write true result}
  -- the voters may be read from the log well before the writes
  | .promote voters listed fenced => match s.pass with
    | .observing _ =>
      if s.inRecovery then
        let s := armPromotionWriteGate s (promotionList nodeId voters) listed fenced
        some {s with promoting := true}
      else none
    | .idle | .installing .. | .probing .. | .opening .. | .ending _ => none
  | .leaveRecovery => if s.promoting then some {s with inRecovery := false, promoting := false} else none
  | .demote readOnly list => some {s with
      inRecovery := true, promoting := false, readOnly := readOnly, list := list}

end Pass

def Leader.accepting (s : Leader) : Bool := !s.inRecovery && !s.readOnly.live

/-- The log says sync while an acknowledged commit needs a standby. -/
def promises (nodeId : NodeId) (s : Leader) : Prop :=
  s.log.syncReplicationActive = some true ∧ 0 < required nodeId s.log.voterIds

/-- What the passes need of their surroundings. A list that goes with a proposal of sync is
confirmed; a list is emptied only while the log says async and no proposal of sync is outstanding;
the voters grow to need a standby only while the log does not say sync over an empty list. A
promotion without a list to write finds no proposal of sync outstanding and voters that need none;
one with a list has it confirmed, or its fence, and then no proposal of sync is outstanding, the
standby's own list does not go with a reload, and the log still says what the pass read of it. -/
def Steady (nodeId : NodeId) (s : Leader) : Event → Prop
  | .install result => ∀ view list, s.pass = .installing view list →
    (proposal view list = some true → result = .done) ∧
      (list = "" → s.log.syncReplicationActive = some false ∧ true ∉ s.outstanding)
  | .membership voters => 0 < required nodeId voters → required nodeId s.log.voterIds = 0 →
    s.log.syncReplicationActive = some true → s.list.live ≠ "" ∧ s.list.onReload ≠ ""
  | .promote voters listed fenced => if promotionList nodeId voters = "" then
      true ∉ s.outstanding ∧ required nodeId s.log.voterIds = 0
    else listed = .done ∨ fenced = .done ∧ true ∉ s.outstanding ∧
      (s.list.live ≠ "" → s.list.onReload ≠ "") ∧ ∀ view, s.pass = .observing view →
        view.committedSync = s.log.syncReplicationActive ∧ view.voters = s.log.voterIds
  | .beginPass _ | .stats _ | .probe _ | .setReadonly _ | .finish | .commit _ | .abandon _ | .reload
  | .fence _ | .leaveRecovery | .demote .. => True

/-- A standby with any settings and proposals, or a primary that is fenced with any list, which has to
be there for a proposal of sync; and any committed mode. -/
structure Started (s : Leader) : Prop where
  fenced : s.inRecovery = false → s.readOnly = ⟨true,true⟩ ∧ s.list.live = s.list.onReload ∧
    (true ∈ s.outstanding → s.list.live ≠ "")
  promoting : s.promoting = false
  pass : s.pass = .idle

def Pass.view : Pass → Option View
  | .observing view | .installing view _ | .probing view _ | .opening view _ => some view
  | .idle | .ending _ => none

def Pass.effect : Pass → Option Bool
  | .probing _ effect | .opening _ effect | .ending effect => effect
  | .idle | .observing _ | .installing .. => none

/-- Writes are open, or will be without another look at the list. -/
def Armed (s : Leader) : Prop :=
  s.readOnly.live = false ∨ s.readOnly.onReload = false ∨ ∃ view effect, s.pass = .opening view effect

structure Inv (nodeId : NodeId) (s : Leader) : Prop where
  armed : Armed s → promises nodeId s → s.list.live ≠ ""
  reloaded : promises nodeId s → s.list.live ≠ "" → s.list.onReload ≠ ""
  pending : true ∈ s.outstanding ∨ s.pass.effect = some true →
    s.list.live ≠ "" ∧ s.list.onReload ≠ ""
  viewed : ∀ view, s.pass.view = some view → promises nodeId s →
    view.committedSync = some false ∨ required nodeId view.voters = 0 → s.list.live ≠ ""

/-- The server is a primary or about to be one. -/
def Leader.primary (s : Leader) : Prop := s.inRecovery = false ∨ s.promoting = true

variable {view : View}

theorem proposal_of_empty : proposal view "" ≠ some true := by
  simp [proposal]

section Steps
variable {nodeId : NodeId} {s : Leader}

theorem inv_started (h : Started s) (hp : s.primary) : Inv nodeId s := by
  obtain ⟨hr,hl,ho⟩ := h.fenced (hp.resolve_right (by simp [h.promoting]))
  refine ⟨?_,fun _ hne => hl ▸ hne,?_,?_⟩
  · rintro (h₁ | h₁ | ⟨view,effect,h₁⟩)
    · simp [hr] at h₁
    · simp [hr] at h₁
    · simp [h.pass] at h₁
  · rintro (h₁ | h₁)
    · exact ⟨ho h₁,hl ▸ ho h₁⟩
    · simp [h.pass,Pass.effect] at h₁
  · intro view hv
    simp [h.pass,Pass.view] at hv

theorem Inv.movePass {p : Pass} (h : Inv nodeId s)
    (hv : ∀ view, p.view = some view → s.pass.view = some view)
    (he : p.effect = some true → s.pass.effect = some true)
    (ho : (∃ view effect, p = .opening view effect) → promises nodeId s → s.list.live ≠ "") :
    Inv nodeId {s with pass := p} where
  armed := by
    rintro (h₁ | h₁ | h₁)
    · exact h.armed (.inl h₁)
    · exact h.armed (.inr (.inl h₁))
    · exact ho h₁
  reloaded := h.reloaded
  pending := fun hp => h.pending (hp.imp_right he)
  viewed := fun view hvi => h.viewed view (hv view hvi)

theorem inv_beginPass {hasQuorum : Bool} (h : Inv nodeId s) :
    Inv nodeId {s with pass := .observing ⟨s.log.voterIds,hasQuorum,s.log.syncReplicationActive⟩} where
  armed := by
    rintro (h₁ | h₁ | ⟨view,effect,h₁⟩)
    · exact h.armed (.inl h₁)
    · exact h.armed (.inr (.inl h₁))
    · cases h₁
  reloaded := h.reloaded
  pending := by
    rintro (h₁ | h₁)
    · exact h.pending (.inl h₁)
    · cases h₁
  viewed := by
    rintro view hv ⟨hs,hr⟩ (h₁ | h₁)
    · cases hv
      have hb : some true = some false := hs.symm.trans h₁
      cases hb
    · cases hv
      exact absurd h₁ hr.ne'

theorem inv_stats {healthy : ℕ} {inGrace : Bool} (h : Inv nodeId s) (hp : s.pass = .observing view)
    : Inv nodeId {s with
      pass := if installs view (plannedList nodeId view healthy inGrace)
        then .installing view (plannedList nodeId view healthy inGrace)
        else .probing view (proposal view (plannedList nodeId view healthy inGrace))} := by
  split
  · exact h.movePass (by simp [hp,Pass.view]) (by simp [Pass.effect]) (by simp)
  · rename_i hi
    have hl : plannedList nodeId view healthy inGrace = "" := by
      by_contra hne
      simp [installs,hne] at hi
    rw [hl]
    exact h.movePass (by simp [hp,Pass.view]) (fun he => absurd he proposal_of_empty) (by simp)

variable {result : Write}

theorem write_live {a : String} (g : Guc String) (ha : a ≠ "") (hg : g.live ≠ "") :
    (g.write a result).live ≠ "" := by
  cases result
  · exact ha
  · exact hg
  · exact hg
  · exact ha

theorem write_onReload {a : String} (g : Guc String) (ha : a ≠ "")
    (hg : g.live ≠ "" → g.onReload ≠ "") (hl : (g.write a result).live ≠ "") :
    (g.write a result).onReload ≠ "" := by
  cases result
  · exact ha
  · exact hg hl
  · exact ha
  · exact ha

theorem inv_install {list : String} (h : Inv nodeId s) (hp : s.pass = .installing view list)
    (hg : Steady nodeId s (.install result)) :
    Inv nodeId {s with list := s.list.write list result, pass := .probing view (proposal view list)} := by
  obtain ⟨hd,he⟩ := hg view list hp
  by_cases hl : list = ""
  · obtain ⟨hs,ho⟩ := he hl
    subst hl
    refine ⟨?_,?_,?_,?_⟩
    · rintro _ ⟨h₁,_⟩
      simp [hs] at h₁
    · rintro ⟨h₁,_⟩
      simp [hs] at h₁
    · rintro (h₁ | h₁)
      · exact absurd h₁ ho
      · exact absurd h₁ proposal_of_empty
    · rintro view' _ ⟨h₁,_⟩
      simp [hs] at h₁
  · refine ⟨?_,?_,?_,?_⟩
    · rintro (h₁ | h₁ | ⟨view',effect,h₁⟩) hpr
      · exact write_live s.list hl (h.armed (.inl h₁) hpr)
      · exact write_live s.list hl (h.armed (.inr (.inl h₁)) hpr)
      · cases h₁
    · intro hpr
      exact write_onReload s.list hl (h.reloaded hpr)
    · rintro (h₁ | h₁)
      · have hold := h.pending (.inl h₁)
        have hli : (s.list.write list result).live ≠ "" := write_live s.list hl hold.1
        exact ⟨hli,write_onReload s.list hl (fun _ => hold.2) hli⟩
      · rw [hd h₁]
        exact ⟨hl,hl⟩
    · intro view' hv hpr hor
      exact write_live s.list hl (h.viewed view' (by simpa [hp,Pass.view] using hv) hpr hor)

theorem inv_probe {effect : Option Bool} {sample : Option Probe} (h : Inv nodeId s)
    (hp : s.pass = .probing view effect) :
    Inv nodeId {s with pass := openWrites nodeId s view effect sample} := by
  have he : Inv nodeId {s with pass := .ending effect} :=
    h.movePass (by simp [Pass.view]) (by simp [hp,Pass.effect]) (by simp)
  cases sample with
  | none => exact he
  | some probe =>
    rw [openWrites]
    split
    · exact he
    split
    · exact he
    split
    · rename_i hg
      refine h.movePass (by simp [hp,Pass.view]) (by simp [hp,Pass.effect]) fun _ hpr hl => ?_
      -- an empty list passes the gate only on what the pass read at its start
      have hr : view.committedSync = some false ∨ required nodeId view.voters = 0 := by
        have ho := hg.1
        simp only [writesMayOpen,hl,decide_true,if_true,Bool.or_eq_true,decide_eq_true_eq] at ho
        exact ho.symm
      exact h.viewed view (by simp [hp,Pass.view]) hpr hr hl
    · exact he

theorem inv_setReadonly {effect : Option Bool} (h : Inv nodeId s)
    (hp : s.pass = .opening view effect) :
    Inv nodeId {s with readOnly := s.readOnly.write false result, pass := .ending effect} where
  armed _ := h.armed (.inr (.inr ⟨view,effect,hp⟩))
  reloaded := h.reloaded
  pending := by
    rintro (h₁ | h₁)
    · exact h.pending (.inl h₁)
    · exact h.pending (.inr (by simpa [hp,Pass.effect] using h₁))
  viewed := by simp [Pass.view]

theorem inv_finish {effect : Option Bool} (h : Inv nodeId s) (hp : s.pass = .ending effect) :
    Inv nodeId {s with outstanding := s.outstanding++effect.toList, pass := .idle} where
  armed := by
    rintro (h₁ | h₁ | ⟨view,effect',h₁⟩)
    · exact h.armed (.inl h₁)
    · exact h.armed (.inr (.inl h₁))
    · cases h₁
  reloaded := h.reloaded
  pending := by
    rintro (h₁ | h₁)
    · rcases mem_append.1 h₁ with h₂ | h₂
      · exact h.pending (.inl h₂)
      · exact h.pending (.inr (by simpa [hp,Pass.effect] using h₂))
    · cases h₁
  viewed := by simp [Pass.view]

theorem apply_setSyncMode (log : ClusterState) (active : Bool) :
    (log.apply (.setSyncMode active)).1 = {log with syncReplicationActive := some active} := by
  have h : log.admits (.setSyncMode active) := by
    simp [ClusterState.admits,ClusterCommand.requiredFeatureLevel]
  rw [ClusterState.apply,if_pos h,ClusterState.applyAdmitted]

theorem inv_commit {i : ℕ} {active : Bool} (h : Inv nodeId s) (hi : s.outstanding[i]? = some active) :
    Inv nodeId {s with
      log := (s.log.apply (.setSyncMode active)).1, outstanding := s.outstanding.eraseIdx i} := by
  rw [apply_setSyncMode]
  have hpe : true ∈ s.outstanding.eraseIdx i ∨ s.pass.effect = some true →
      s.list.live ≠ "" ∧ s.list.onReload ≠ "" :=
    fun hp => h.pending (hp.imp_left fun hm => mem_of_mem_eraseIdx hm)
  cases active with
  | true =>
    have hs := h.pending (.inl (mem_of_getElem? hi))
    exact ⟨fun _ _ => hs.1,fun _ _ => hs.2,hpe,fun _ _ _ _ => hs.1⟩
  | false =>
    refine ⟨?_,?_,hpe,?_⟩
    · rintro _ ⟨h₁,_⟩
      cases h₁
    · rintro ⟨h₁,_⟩
      cases h₁
    · rintro view _ ⟨h₁,_⟩
      cases h₁

theorem inv_abandon {i : ℕ} (h : Inv nodeId s) :
    Inv nodeId {s with outstanding := s.outstanding.eraseIdx i} where
  armed := h.armed
  reloaded := h.reloaded
  pending := fun hp => h.pending (hp.imp_left fun hm => mem_of_mem_eraseIdx hm)
  viewed := h.viewed

theorem inv_membership {voters : Finset NodeId} (h : Inv nodeId s)
    (hg : Steady nodeId s (.membership voters)) :
    Inv nodeId {s with log := {s.log with voterIds := voters}} where
  armed := by
    rintro ha ⟨hs,hr⟩
    rcases Nat.eq_zero_or_pos (required nodeId s.log.voterIds) with h₀ | h₀
    · exact (hg hr h₀ hs).1
    · exact h.armed ha ⟨hs,h₀⟩
  reloaded := by
    rintro ⟨hs,hr⟩ hl
    rcases Nat.eq_zero_or_pos (required nodeId s.log.voterIds) with h₀ | h₀
    · exact (hg hr h₀ hs).2
    · exact h.reloaded ⟨hs,h₀⟩ hl
  pending := h.pending
  viewed := by
    rintro view hv ⟨hs,hr⟩ hor
    rcases Nat.eq_zero_or_pos (required nodeId s.log.voterIds) with h₀ | h₀
    · exact (hg hr h₀ hs).1
    · exact h.viewed view hv ⟨hs,h₀⟩ hor

theorem inv_reload (h : Inv nodeId s) :
    Inv nodeId {s with list := s.list.reload, readOnly := s.readOnly.reload} where
  armed := by
    rintro ha hpr
    have hb : Armed s := by
      rcases ha with h₁ | h₁ | h₁
      · exact .inr (.inl h₁)
      · exact .inr (.inl h₁)
      · exact .inr (.inr h₁)
    exact h.reloaded hpr (h.armed hb hpr)
  reloaded _ hl := hl
  pending hp := ⟨(h.pending hp).2,(h.pending hp).2⟩
  viewed := fun view hv hpr hor => h.reloaded hpr (h.viewed view hv hpr hor)

theorem inv_readOnly {g : Guc Bool} (h : Inv nodeId s) (hl : g.live = false → Armed s)
    (hf : g.onReload = false → Armed s) : Inv nodeId {s with readOnly := g} where
  armed := by
    rintro (h₁ | h₁ | h₁)
    · exact h.armed (hl h₁)
    · exact h.armed (hf h₁)
    · exact h.armed (.inr (.inr h₁))
  reloaded := h.reloaded
  pending := h.pending
  viewed := h.viewed

theorem inv_fence (h : Inv nodeId s) :
    Inv nodeId {s with readOnly := s.readOnly.write true result} := by
  refine inv_readOnly h ?_ ?_
  · cases result
    · intro h₁; cases h₁
    · exact .inl
    · exact .inl
    · intro h₁; cases h₁
  · cases result
    · intro h₁; cases h₁
    · exact fun h₁ => .inr (.inl h₁)
    · intro h₁; cases h₁
    · intro h₁; cases h₁

theorem inv_listed {list : String} (hl : list ≠ "") : Inv nodeId {s with list := ⟨list,list⟩} :=
  ⟨fun _ _ => hl,fun _ _ => hl,fun _ => ⟨hl,hl⟩,fun _ _ _ _ => hl⟩

/-- A promotion without a list needs no standby; one with a list has it installed, or is fenced. -/
theorem inv_promote {voters : Finset NodeId} {listed fenced : Write} (hp : s.pass = .observing view)
    (hg : Steady nodeId s (.promote voters listed fenced)) :
    Inv nodeId {armPromotionWriteGate s (promotionList nodeId voters) listed fenced with
      promoting := true} := by
  have he : s.pass.effect ≠ some true := by simp [hp,Pass.effect]
  rw [Steady] at hg
  rw [armPromotionWriteGate]
  by_cases hl : promotionList nodeId voters = ""
  · rw [if_pos hl] at hg ⊢
    obtain ⟨ho,hr⟩ := hg
    have hn : ∀ t : Leader, t.log = s.log → ¬ promises nodeId t := by
      rintro t ht ⟨_,hp⟩
      rw [ht,hr] at hp
      exact hp.false
    exact ⟨fun _ hpr => absurd hpr (hn _ rfl),fun hpr => absurd hpr (hn _ rfl),
      fun h => (h.elim ho he).elim,fun _ _ hpr => absurd hpr (hn _ rfl)⟩
  · rw [if_neg hl] at hg ⊢
    rcases hg with rfl | ⟨rfl,ho,hre,hcu⟩
    · exact inv_listed (s := {s with promoting := true, readOnly := s.readOnly.write true fenced}) hl
    · refine ⟨?_,fun _ => write_onReload s.list hl hre,fun h => (h.elim ho he).elim,?_⟩
      · rintro (h₁ | h₁ | ⟨view',effect,h₁⟩)
        · cases h₁
        · cases h₁
        · exact absurd (hp.symm.trans h₁) (by simp)
      · rintro view' hv ⟨hs,hr⟩ hor
        have hvi : view = view' := by simpa [hp,Pass.view] using hv
        obtain ⟨hcs,hvo⟩ := hcu view hp
        rw [← hvi,hcs,hvo,hs] at hor
        rcases hor with h₁ | h₁
        · cases h₁
        · exact absurd h₁ hr.ne'

theorem inv_step {s' : Leader} {e : Event} (h : s.primary → Inv nodeId s) (hg : Steady nodeId s e)
    (hs : step nodeId s e = some s') (hpr : s'.primary) : Inv nodeId s' := by
  revert hs
  fun_cases step nodeId s e <;> intro hs <;> try cases hs
  · exact inv_beginPass (h hpr)
  · exact (h hpr).movePass (by simp [Pass.view]) (by simp [Pass.effect]) (by simp)
  · next hp _ _ => exact inv_stats (h hpr) hp
  · next hp => exact inv_install (h hpr) hp hg
  · next hp => exact inv_probe (h hpr) hp
  · next hp => exact inv_setReadonly (h hpr) hp
  · next hp => exact inv_finish (h hpr) hp
  · obtain ⟨active,hi,rfl⟩ := Option.map_eq_some_iff.1 hs
    exact inv_commit (h hpr) hi
  · exact inv_abandon (h hpr)
  · exact inv_membership (h hpr) hg
  · exact inv_reload (h hpr)
  · exact inv_fence (h hpr)
  · next hp _ _ => exact inv_promote hp hg
  · next hpo => exact {h (.inr hpo) with}
  · exact hpr.elim (fun h₁ => by cases h₁) fun h₁ => by cases h₁

end Steps

theorem inv_reached {nodeId : NodeId} {s₀ s : Leader} {events : List Event} (h₀ : Started s₀)
    (hg : Guarded (step nodeId) (Steady nodeId) s₀ events)
    (hr : run (step nodeId) s₀ events = some s) : s.primary → Inv nodeId s :=
  run_invariant_guarded (fun _ _ _ hi hg hs => inv_step hi hg hs) (inv_started h₀) hg hr

/-- In every run whose surroundings are steady, a primary that accepts writes and needs a standby
for them has a list installed whenever the log says sync, and so whenever a rewind may discard
without bound. -/
theorem sync_mode_never_overstates (nodeId : NodeId) (s₀ : Leader) (h₀ : Started s₀)
    (events : List Event) (hg : Guarded (step nodeId) (Steady nodeId) s₀ events) (s : Leader)
    (hrun : run (step nodeId) s₀ events = some s) :
    s.accepting → 0 < required nodeId s.log.voterIds →
      s.log.syncReplicationActive = some true ∨ rewindBudget s.log = .unbounded →
      s.list.live ≠ "" := by
  intro ha hr hs
  simp only [Leader.accepting,Bool.and_eq_true,Bool.not_eq_true'] at ha
  have hi := inv_reached h₀ hg hrun (.inl ha.1)
  exact hi.armed (.inl ha.2) ⟨hs.elim (fun h => h) sync_of_unbounded,hr⟩

theorem required_eq (nodeId : NodeId) (voters : Finset NodeId) :
    required nodeId voters = (voters.erase nodeId).card/2 := by
  rw [required,length_peerVoterNames,requiredSyncStandbys]

def recorded (voters : Finset NodeId) (active : Bool) : ClusterState :=
  {ClusterState.new with voterIds := voters, syncReplicationActive := some active}

def promoted (voters : Finset NodeId) (active : Bool) : Leader :=
  ⟨recorded voters active,false,false,⟨true,true⟩,⟨"",""⟩,[],.idle⟩

theorem syncStandbyList_three :
    syncStandbyList (peerVoterNames {1,2,3} 1) = "FIRST 1 (pgbattery_node_2, pgbattery_node_3)" := by
  have hv : (({1,2,3} : Finset NodeId).filter (· ≠ 1)).val.map nodeName =
      ↑["pgbattery_node_2","pgbattery_node_3"] := by decide
  have hn : peerVoterNames {1,2,3} 1 = ["pgbattery_node_2","pgbattery_node_3"] := by
    rw [peerVoterNames,hv,Multiset.coe_sort]
    exact mergeSort_eq_self _ (by decide)
  rw [hn]
  rfl

theorem plannedList_three (hasQuorum : Bool) (committed : Option Bool) :
    plannedList 1 ⟨{1,2,3},hasQuorum,committed⟩ 1 false =
      "FIRST 1 (pgbattery_node_2, pgbattery_node_3)" := by
  simp [plannedList,planSyncReplication,syncStandbyList_three]

theorem plannedList_silent (voters : Finset NodeId) (committed : Option Bool) :
    plannedList 1 ⟨voters,true,committed⟩ 0 false = "" := by
  simp [plannedList,planSyncReplication]

theorem plannedList_two (hasQuorum : Bool) (committed : Option Bool) :
    plannedList 1 ⟨{1,2},hasQuorum,committed⟩ 1 false = "" := by
  have hl : (peerVoterNames {1,2} 1).length = 1 := by
    rw [length_peerVoterNames]
    decide
  simp [plannedList,planSyncReplication,syncStandbyList,hl,requiredSyncStandbys]

/-- One pass installs the list, opens writes and proposes sync. -/
def syncPass : List Event :=
  [.beginPass true,.stats (some (1,false)),.install .done,.probe (some ⟨1,true,false⟩),
    .setReadonly .done,.finish]

/-- A standby whose settings are those of a primary that was open under the async fallback. -/
def standby (active : Bool) : Leader :=
  ⟨recorded {1,2,3} active,true,false,⟨false,false⟩,⟨"",""⟩,[],.idle⟩

/-- Node 1 is promoted with its list installed and its fence not, and proposes sync. -/
def failover : List Event :=
  [.beginPass true,.promote {1,2,3} .done .lost,.leaveRecovery,.stats (some (1,false)),.install .done,
    .probe (some ⟨1,true,false⟩),.finish,.commit 0]

theorem sync_mode_never_overstates_failover :
    Started (standby false) ∧ Guarded (step 1) (Steady 1) (standby false) failover ∧
      ∃ s, run (step 1) (standby false) failover = some s ∧ s.accepting ∧
        s.log.syncReplicationActive = some true ∧ s.list.live ≠ "" := by
  have hf : Started (standby false) := ⟨by simp [standby],rfl,rfl⟩
  have hr : run (step 1) (standby false) failover =
      some ⟨recorded {1,2,3} true,false,false,⟨false,false⟩,
        ⟨"FIRST 1 (pgbattery_node_2, pgbattery_node_3)","FIRST 1 (pgbattery_node_2, pgbattery_node_3)"⟩,
        [],.idle⟩ := by
    simp [failover,run,step,armPromotionWriteGate,promotionList,syncStandbyList_three,standby,recorded,
      plannedList_three,installs,proposal,openWrites,Guc.write,apply_setSyncMode]
  have hs : Guarded (step 1) (Steady 1) (standby false) failover := by
    simp [failover,Guarded,Steady,step,armPromotionWriteGate,promotionList,syncStandbyList_three,standby,recorded,
      plannedList_three,installs]
  refine ⟨hf,hs,_,hr,rfl,rfl,?_⟩
  refine sync_mode_never_overstates 1 _ hf _ hs _ hr rfl ?_ (.inl rfl)
  rw [required_eq]
  decide

/-- The async fallback is in force, then a replica streams again and its list is not written. -/
def failedInstall : List Event :=
  [.beginPass true,.stats (some (0,false)),.install .done,.probe (some ⟨0,true,false⟩),
    .setReadonly .done,.finish,.beginPass true,.stats (some (1,false)),.install .lost,.probe none,
    .finish,.commit 0]

/-- The list is emptied while the proposal of sync is still on its way. -/
def lateCommit : List Event :=
  syncPass++
    ([.beginPass true,.stats (some (0,false)),.install .done,.probe none,.finish,.commit 0] : List Event)

/-- A third voter joins two that needed no standby. -/
def thirdVoter : List Event :=
  [.beginPass true,.stats (some (1,false)),.probe (some ⟨0,true,false⟩),.setReadonly .done,
    .membership {1,2,3}]

/-- Neither the list nor the fence of a promotion is written. -/
def unarmed : List Event := [.beginPass true,.promote {1,2,3} .lost .lost,.leaveRecovery]

def Overstated (s : Leader) : Prop :=
  s.accepting ∧ 0 < required 1 s.log.voterIds ∧ s.log.syncReplicationActive = some true ∧
    rewindBudget s.log = .unbounded ∧ s.list.live = ""

theorem sync_mode_overstated :
    (∃ s, run (step 1) (promoted {1,2,3} false) failedInstall = some s ∧ Overstated s) ∧
      (∃ s, run (step 1) (promoted {1,2,3} false) lateCommit = some s ∧ Overstated s) ∧
      (∃ s, run (step 1) (promoted {1,2} true) thirdVoter = some s ∧ Overstated s) ∧
      ∃ s, run (step 1) (standby true) unarmed = some s ∧ Overstated s := by
  have hr : 0 < required 1 {1,2,3} := by
    rw [required_eq]
    decide
  refine ⟨⟨⟨recorded {1,2,3} true,false,false,⟨false,false⟩,⟨"",""⟩,[],.idle⟩,?_,rfl,hr,rfl,rfl,rfl⟩,
    ⟨⟨recorded {1,2,3} true,false,false,⟨false,false⟩,⟨"",""⟩,[],.idle⟩,?_,rfl,hr,rfl,rfl,rfl⟩,
    ⟨⟨recorded {1,2,3} true,false,false,⟨false,false⟩,⟨"",""⟩,[],.ending (some false)⟩,?_,rfl,hr,rfl,
      rfl,rfl⟩,
    ⟨⟨recorded {1,2,3} true,false,false,⟨false,false⟩,⟨"",""⟩,[],
      .observing ⟨{1,2,3},true,some true⟩⟩,?_,rfl,hr,rfl,rfl,rfl⟩⟩
  · simp [failedInstall,run,step,promoted,recorded,plannedList_three,plannedList_silent,installs,
      proposal,openWrites,writesMayOpen,Guc.write,apply_setSyncMode]
  · simp [lateCommit,syncPass,run,step,promoted,recorded,plannedList_three,plannedList_silent,
      installs,proposal,openWrites,writesMayOpen,required_eq,Guc.write,apply_setSyncMode]
  · simp [thirdVoter,run,step,promoted,recorded,plannedList_two,installs,proposal,openWrites,
      writesMayOpen,required_eq,Guc.write]
  · simp [unarmed,run,step,armPromotionWriteGate,promotionList,syncStandbyList_three,standby,recorded,Guc.write]

end SyncMode
end PgBattery
