import PgBattery.TransitionSystem

/-! The watchdog over a leader whose PostgreSQL does not serve. It measures the tenure and reads the
latest probe only; its history of observations is kept beside it, to say what a yield stands for. -/
namespace PgBattery
namespace PromotionWatchdog
open TransitionSystem List

structure LeadershipObservation where
  isRaftLeader : Bool
  /-- `none` when the probe itself failed. -/
  pgPrimary : Option Bool
  deriving DecidableEq

inductive WedgeVerdict
  | hold | yield
  deriving DecidableEq

/-- Durations and instants are in nanoseconds. -/
def fromMillis (ms : ℕ) : ℕ := ms*1000000

def leaderWithoutPrimaryYieldMs : ℕ := 60000

def leaderYieldCooldownMs : ℕ := 15000

def bound : ℕ := fromMillis leaderWithoutPrimaryYieldMs

def cooldown : ℕ := fromMillis leaderYieldCooldownMs

def wedgeVerdict (leaderFor : Option ℕ) (pgPrimary : Option Bool) (bound : ℕ)
    (sinceLastYield : Option ℕ) (cooldown : ℕ) : WedgeVerdict :=
  match leaderFor with
  | none => .hold
  | some leaderFor =>
    if pgPrimary = some true then .hold
    else if leaderFor < bound then .hold
    else if sinceLastYield.any (· < cooldown) then .hold
    else .yield

structure Watchdog where
  leaderSince : Option ℕ := none
  lastYield : Option ℕ := none
  deriving DecidableEq

/-- `saturating_duration_since` is subtraction on the naturals. -/
def Watchdog.observe (w : Watchdog) (obs : LeadershipObservation) (now : ℕ) : Watchdog × WedgeVerdict :=
  if obs.isRaftLeader then
    let since := w.leaderSince.getD now
    let verdict := wedgeVerdict (some (now-since)) obs.pgPrimary bound (w.lastYield.map (now-·)) cooldown
    (⟨some since,if verdict = .yield then some now else w.lastYield⟩,verdict)
  else ({w with leaderSince := none},.hold)

theorem wedgeVerdict_eq_yield {leaderFor : ℕ} {pgPrimary : Option Bool} {bound cooldown : ℕ}
    {sinceLastYield : Option ℕ}
    (h : wedgeVerdict (some leaderFor) pgPrimary bound sinceLastYield cooldown = .yield) :
    pgPrimary ≠ some true ∧ bound ≤ leaderFor ∧ ∀ since ∈ sinceLastYield, cooldown ≤ since := by
  simp only [wedgeVerdict] at h
  split_ifs at h with hp hsh hr
  refine ⟨hp,Nat.le_of_not_lt hsh,fun since hs => ?_⟩
  by_contra hlt
  rw [Option.mem_def] at hs
  rw [hs] at hr
  exact hr (decide_eq_true (Nat.lt_of_not_le hlt))

/-- An observation with what the watchdog answered to it. -/
structure Entry where
  obs : LeadershipObservation
  now : ℕ
  verdict : WedgeVerdict
  deriving DecidableEq

/-- The history is newest first. -/
structure Watched where
  watchdog : Watchdog := {}
  history : List Entry := []
  deriving DecidableEq

def step (s : Watched) (seen : LeadershipObservation × ℕ) : Option Watched :=
  if s.history.head?.any (seen.2 < ·.now) then none
  else
    let next := s.watchdog.observe seen.1 seen.2
    some ⟨next.1,⟨seen.1,seen.2,next.2⟩::s.history⟩

def Entry.leading (e : Entry) : Bool := e.obs.isRaftLeader

def Entry.unserved (e : Entry) : Bool := e.obs.isRaftLeader && e.obs.pgPrimary ≠ some true

/-- Every observation back to one at least the bound ago saw a leader without a primary. -/
def Wedged (e : Entry) (older : List Entry) : Prop :=
  ∃ first ∈ (e::older).takeWhile Entry.unserved, first.now+bound ≤ e.now

def Justified : List Entry → Prop
  | [] => True
  | e::older => (e.verdict = .yield → Wedged e older) ∧ Justified older

def Spaced (history : List Entry) : Prop :=
  (history.filter (·.verdict = .yield)).Pairwise fun e e' => e'.now+cooldown ≤ e.now

def reign (history : List Entry) : List Entry := history.takeWhile Entry.leading

/-- A leader that is seen without a primary once its reign has lasted the bound has not been seen with
one in that reign. -/
def NeverServed (s : Watched) (seen : LeadershipObservation × ℕ) : Prop :=
  seen.1.isRaftLeader = true → seen.1.pgPrimary ≠ some true →
    (∃ e ∈ reign s.history, e.now+bound ≤ seen.2) →
      ∀ e ∈ reign s.history, e.obs.pgPrimary ≠ some true

instance instDecidableWedged (e : Entry) (older : List Entry) : Decidable (Wedged e older) :=
  inferInstanceAs (Decidable (∃ first ∈ (e::older).takeWhile Entry.unserved, first.now+bound ≤ e.now))

instance instDecidableJustified : ∀ history, Decidable (Justified history)
  | [] => isTrue trivial
  | e::older =>
    have : Decidable (Justified older) := instDecidableJustified older
    inferInstanceAs (Decidable ((e.verdict = .yield → Wedged e older) ∧ Justified older))

instance instDecidableNeverServed (s : Watched) (seen : LeadershipObservation × ℕ) :
    Decidable (NeverServed s seen) :=
  inferInstanceAs (Decidable (seen.1.isRaftLeader = true → seen.1.pgPrimary ≠ some true →
    (∃ e ∈ reign s.history, e.now+bound ≤ seen.2) → ∀ e ∈ reign s.history, e.obs.pgPrimary ≠ some true))

theorem takeWhile_unserved {history : List Entry}
    (h : ∀ e ∈ reign history, e.obs.pgPrimary ≠ some true) :
    history.takeWhile Entry.unserved = reign history := by
  induction history with
  | nil => rfl
  | cons e older ih =>
    by_cases hl : e.leading
    · have hr : reign (e::older) = e::reign older := takeWhile_cons_of_pos hl
      rw [hr] at h ⊢
      have hs : e.unserved := by
        have hp := h e mem_cons_self
        rw [Entry.leading] at hl
        simp [Entry.unserved,hl,hp]
      rw [takeWhile_cons_of_pos hs,ih fun e' he' => h e' (mem_cons_of_mem e he')]
    · have hs : ¬e.unserved := fun hs => hl (Bool.and_eq_true_iff.1 hs).1
      rw [takeWhile_cons_of_neg hs,reign,takeWhile_cons_of_neg hl]

/-- What the two instants the watchdog keeps stand for. -/
structure Inv (s : Watched) : Prop where
  since : s.watchdog.leaderSince = (reign s.history).getLast?.map Entry.now
  yielded : s.watchdog.lastYield = (s.history.find? (·.verdict = .yield)).map Entry.now
  sorted : s.history.Pairwise fun e e' => e'.now ≤ e.now

section Step
variable {s s' : Watched} {obs : LeadershipObservation} {now : ℕ}

/-- All a step does. -/
theorem step_eq (h : step s (obs,now) = some s') :
    (∀ e ∈ s.history.head?, e.now ≤ now) ∧
      s' = ⟨(s.watchdog.observe obs now).1,⟨obs,now,(s.watchdog.observe obs now).2⟩::s.history⟩ := by
  simp only [step] at h
  split_ifs at h with hb
  refine ⟨fun e he => ?_,(Option.some.inj h).symm⟩
  by_contra hlt
  rw [Option.mem_def] at he
  rw [he] at hb
  exact hb (decide_eq_true (Nat.lt_of_not_le hlt))

theorem observe_follower (w : Watchdog) (h : obs.isRaftLeader = false) :
    w.observe obs now = ({w with leaderSince := none},.hold) := by
  simp [Watchdog.observe,h]

theorem observe_leader (w : Watchdog) (h : obs.isRaftLeader) {verdict : WedgeVerdict}
    (hv : (w.observe obs now).2 = verdict) :
    (w.observe obs now).1 =
      ⟨some (w.leaderSince.getD now),if verdict = .yield then some now else w.lastYield⟩ := by
  subst hv
  simp [Watchdog.observe,h]

theorem observe_eq_yield {w : Watchdog} (h : (w.observe obs now).2 = .yield) :
    obs.isRaftLeader ∧ obs.pgPrimary ≠ some true ∧ w.leaderSince.getD now+bound ≤ now ∧
      ∀ last ∈ w.lastYield, last+cooldown ≤ now := by
  cases hl : obs.isRaftLeader with
  | false =>
    rw [observe_follower w hl] at h
    cases h
  | true =>
    have hv : wedgeVerdict (some (now-w.leaderSince.getD now)) obs.pgPrimary bound
        (w.lastYield.map (now-·)) cooldown = .yield := by
      rw [← h]
      simp [Watchdog.observe,hl]
    obtain ⟨hp,hlo,hla⟩ := wedgeVerdict_eq_yield hv
    have hb : 0 < bound := by decide
    have hc : 0 < cooldown := by decide
    refine ⟨rfl,hp,by omega,fun last hm => ?_⟩
    have hle := hla (now-last) (by rw [Option.mem_def] at hm ⊢; rw [hm]; rfl)
    omega

theorem inv_step (hi : Inv s) (h : step s (obs,now) = some s') : Inv s' := by
  obtain ⟨hla,rfl⟩ := step_eq h
  have hso : ∀ e ∈ s.history, e.now ≤ now := by
    cases hs : s.history with
    | nil => simp
    | cons e older =>
      intro e' he'
      have hh := hla e (by rw [hs]; rfl)
      rcases mem_cons.1 he' with rfl | hold
      · exact hh
      · have hp := hi.sorted
        rw [hs] at hp
        exact (rel_of_pairwise_cons hp hold).trans hh
  refine ⟨?_,?_,pairwise_cons.2 ⟨hso,hi.sorted⟩⟩
  · cases hl : obs.isRaftLeader with
    | false =>
      rw [observe_follower _ hl,reign,takeWhile_cons_of_neg (by simp [Entry.leading,hl])]
      rfl
    | true =>
      have hse : Entry.leading ⟨obs,now,(s.watchdog.observe obs now).2⟩ := hl
      rw [observe_leader _ hl rfl,reign,takeWhile_cons_of_pos hse,List.getLast?_cons,hi.since]
      cases hr : (reign s.history).getLast? with
      | none =>
        rw [reign] at hr
        rw [hr]
        rfl
      | some e =>
        rw [reign] at hr
        rw [hr]
        rfl
  · by_cases hy : (s.watchdog.observe obs now).2 = .yield
    · have hl := (observe_eq_yield hy).1
      rw [observe_leader _ hl hy,List.find?_cons_of_pos (by simp [hy]),if_pos rfl]
      rfl
    · rw [List.find?_cons_of_neg (by simp [hy]),← hi.yielded]
      cases hl : obs.isRaftLeader with
      | false => rw [observe_follower _ hl]
      | true => rw [observe_leader _ hl rfl,if_neg hy]

theorem spaced_step (hi : Inv s) (hs : Spaced s.history) (h : step s (obs,now) = some s') :
    Spaced s'.history := by
  obtain ⟨-,rfl⟩ := step_eq h
  by_cases hyi : (s.watchdog.observe obs now).2 = .yield
  · rw [Spaced,filter_cons_of_pos (by simp [hyi])]
    refine pairwise_cons.2 ⟨fun e he => ?_,hs⟩
    have hl := (observe_eq_yield hyi).2.2.2
    rw [hi.yielded,← List.head?_filter] at hl
    -- the last yield is the newest of them, and the others came before it
    cases hy : s.history.filter (·.verdict = .yield) with
    | nil =>
      rw [hy] at he
      cases he
    | cons newest older =>
      rw [hy] at hl he
      have hn := hl newest.now rfl
      rcases mem_cons.1 he with rfl | hold
      · exact hn
      · have hso := hi.sorted.filter (·.verdict = .yield)
        rw [hy] at hso
        have hle := rel_of_pairwise_cons hso hold
        show e.now+cooldown ≤ now
        omega
  · rw [Spaced,filter_cons_of_neg (by simp [hyi])]
    exact hs

theorem justified_step (hi : Inv s) (hg : NeverServed s (obs,now)) (hj : Justified s.history)
    (h : step s (obs,now) = some s') : Justified s'.history := by
  obtain ⟨-,rfl⟩ := step_eq h
  refine ⟨fun hy => ?_,hj⟩
  obtain ⟨hle,hp,hl,-⟩ := observe_eq_yield hy
  have hb : 0 < bound := by decide
  rw [hi.since] at hl
  cases hf : (reign s.history).getLast? with
  | none =>
    rw [hf] at hl
    have hz : now+bound ≤ now := hl
    omega
  | some first =>
    rw [hf] at hl
    have hm := List.mem_of_getLast? hf
    have hs := hg hle hp ⟨first,hm,hl⟩
    refine ⟨first,?_,hl⟩
    -- nobody in the reign reported a primary, so the whole reign is the stretch
    have hse : Entry.unserved ⟨obs,now,(s.watchdog.observe obs now).2⟩ := by
      simp [Entry.unserved,hle,hp]
    rw [takeWhile_cons_of_pos hse,takeWhile_unserved hs]
    exact mem_cons_of_mem _ hm

end Step

theorem inv_start : Inv {} := ⟨rfl,rfl,List.Pairwise.nil⟩

/-- Over any observations, yields are the cooldown apart; and as long as no leader past the bound loses
a primary it had in its reign, every yield is of a leader that was seen without one for the bound. -/
theorem yields_spaced_and_justified (seen : List (LeadershipObservation × ℕ)) (s : Watched)
    (hrun : run step {} seen = some s) :
    Spaced s.history ∧ (Guarded step NeverServed {} seen → Justified s.history) := by
  constructor
  · have hs : ∀ s l t, Inv s ∧ Spaced s.history → step s l = some t → Inv t ∧ Spaced t.history :=
      fun _ _ _ h hs => ⟨inv_step h.1 hs,spaced_step h.1 h.2 hs⟩
    exact (run_invariant hs ⟨inv_start,List.Pairwise.nil⟩ hrun).2
  · intro hg
    have hs : ∀ s l t, Inv s ∧ Justified s.history → NeverServed s l → step s l = some t →
        Inv t ∧ Justified t.history :=
      fun _ _ _ h hl hs => ⟨inv_step h.1 hs,justified_step h.1 hl h.2 hs⟩
    exact (run_invariant_guarded hs ⟨inv_start,trivial⟩ hg hrun).2

/-- A leader whose probe keeps failing yields at the bound, and again after the cooldown. -/
theorem wedged_leader_yields :
    ((run step {} [(⟨true,none⟩,0),(⟨true,none⟩,bound),(⟨true,some false⟩,bound+cooldown)]).map
      fun s => s.history.map Entry.verdict) = some [.yield,.yield,.hold] ∧
    ((run step {} [(⟨true,none⟩,0),(⟨true,none⟩,bound),(⟨true,some false⟩,bound+cooldown)]).all
      fun s => decide (Justified s.history)) = true := by
  obtain ⟨s,hr⟩ : ∃ s, run step {}
      [(⟨true,none⟩,0),(⟨true,none⟩,bound),(⟨true,some false⟩,bound+cooldown)] = some s := ⟨_,rfl⟩
  have hj := (yields_spaced_and_justified _ s hr).2 (by decide)
  refine ⟨by decide,?_⟩
  rw [hr]
  exact decide_eq_true hj

/-- An hour of serving, and one probe that does not answer. -/
theorem served_leader_yields :
    ((run step {} [(⟨true,some true⟩,0),(⟨true,some true⟩,fromMillis 3599500),
      (⟨true,none⟩,fromMillis 3600000)]).map fun s => s.history.map Entry.verdict) =
        some [.yield,.hold,.hold] ∧
    ((run step {} [(⟨true,some true⟩,0),(⟨true,some true⟩,fromMillis 3599500),
      (⟨true,none⟩,fromMillis 3600000)]).all fun s => decide (¬Justified s.history)) = true := by
  decide

end PromotionWatchdog
end PgBattery
