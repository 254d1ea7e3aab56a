import PgBattery.TransitionSystem
import PgBattery.Word

/-! The leaderless watchdog: voters that see no leader force elections one after another, each at the
place its rank gives it in a schedule that repeats. -/
namespace PgBattery
namespace LeaderlessStagger
open TransitionSystem List

section Watchdog

def baseTimeouts : U32 := 5
def staggerTimeouts : U32 := 8

def leaderlessThreshold (rank : U32) (electionTimeout : U64) : U64 :=
  let timeouts := U32.saturatingAdd baseTimeouts (U32.saturatingMul rank staggerTimeouts)
  U64.saturatingMul (Fin.ofNat _ timeouts.val) electionTimeout

def leaderlessCooldown (voters : U32) (electionTimeout : U64) : U64 :=
  let timeouts := U32.saturatingMul (max voters 1) staggerTimeouts
  U64.saturatingMul (Fin.ofNat _ timeouts.val) electionTimeout

structure Metrics where
  hasLeader : Bool
  voterIds : Finset U64

structure Tally where
  isVoter : Bool
  rank : U32
  voters : U32
  deriving DecidableEq

def Tally.count (nodeId : U64) (t : Tally) (id : U64) : Tally where
  isVoter := t.isVoter || id = nodeId
  rank := if id ≠ nodeId ∧ id < nodeId then U32.saturatingAdd t.rank 1 else t.rank
  voters := U32.saturatingAdd t.voters 1

instance instRightCommutativeCount (nodeId : U64) : RightCommutative (Tally.count nodeId) where
  right_comm t id id' := by
    simp only [Tally.count,Tally.mk.injEq,Bool.or_right_comm,true_and,and_true]
    split_ifs <;> rfl

def tally (nodeId : U64) (voterIds : Finset U64) : Tally :=
  voterIds.val.foldl (Tally.count nodeId) ⟨false,0,0⟩

structure RunState where
  leaderlessRecoveryLastFiredAt : Option ℕ
  leaderlessSince : Option ℕ
  deriving DecidableEq

/-- One turn of the loop at `now`; `later` is the time when a forced election has been triggered. The
second component is the instant of the trigger. -/
def runLeaderlessWatchdog (nodeId electionTimeout : U64) (runtime : RunState) (metrics : Metrics)
    (now later : ℕ) : RunState × Option ℕ :=
  let t := tally nodeId metrics.voterIds
  if metrics.hasLeader then ({runtime with leaderlessRecoveryLastFiredAt := none},none)
  else if !t.isVoter then (runtime,none)
  else match runtime.leaderlessSince with
    | none => (runtime,none)
    | some since =>
      if now-since < (leaderlessThreshold t.rank electionTimeout).val then (runtime,none)
      else if runtime.leaderlessRecoveryLastFiredAt.any fun last =>
          now-last < (leaderlessCooldown t.voters electionTimeout).val then (runtime,none)
      else ({runtime with leaderlessRecoveryLastFiredAt := some later},some now)

end Watchdog

section Ranks
variable {voters : Finset U64} {id id' : U64}

def rankOf (voters : Finset U64) (id : U64) : ℕ := (voters.filter (· < id)).card

theorem rankOf_lt (h : id ∈ voters) : rankOf voters id < voters.card := by
  refine Finset.card_lt_card ((Finset.filter_ssubset).2 ⟨id,h,?_⟩)
  exact lt_irrefl id

theorem rankOf_lt_rankOf (h : id ∈ voters) (hlt : id < id') : rankOf voters id < rankOf voters id' := by
  refine Finset.card_lt_card (Finset.ssubset_iff_of_subset ?_ |>.2 ⟨id,?_,?_⟩)
  · intro x hx
    rw [Finset.mem_filter] at hx ⊢
    exact ⟨hx.1,hx.2.trans hlt⟩
  · exact Finset.mem_filter.2 ⟨h,hlt⟩
  · simp

theorem rankOf_ne (h : id ∈ voters) (h' : id' ∈ voters) (hne : id ≠ id') :
    rankOf voters id ≠ rankOf voters id' := by
  rcases lt_or_gt_of_ne hne with hlt | hlt
  · exact (rankOf_lt_rankOf h hlt).ne
  · exact (rankOf_lt_rankOf h' hlt).ne'

theorem foldl_count (l : List U64) (t : Tally) (hr : t.rank.val+l.length < 4294967296)
    (hvo : t.voters.val+l.length < 4294967296) :
    (l.foldl (Tally.count id) t).isVoter = (t.isVoter || decide (id ∈ l)) ∧
    (l.foldl (Tally.count id) t).rank.val = t.rank.val+l.countP (· < id) ∧
    (l.foldl (Tally.count id) t).voters.val = t.voters.val+l.length := by
  induction l generalizing t with
  | nil => simp
  | cons x l ih =>
    rw [length_cons] at hr hvo
    have ho : ∀ n : U32, n.val+1 < 4294967296 → (U32.saturatingAdd n 1).val = n.val+1 := by
      intro n hn
      simp only [U32.saturatingAdd,Fin.val_one]
      omega
    have hx : (Tally.count id t x).rank.val = t.rank.val+if x < id then 1 else 0 := by
      by_cases hlt : x < id
      · rw [Tally.count,if_pos ⟨hlt.ne,hlt⟩,if_pos hlt,ho _ (by omega)]
      · rw [Tally.count,if_neg (fun h => hlt h.2),if_neg hlt,Nat.add_zero]
    have hv : (Tally.count id t x).voters.val = t.voters.val+1 := ho _ (by omega)
    obtain ⟨h₁,h₂,h₃⟩ := ih (Tally.count id t x) (by rw [hx]; split_ifs <;> omega) (by rw [hv]; omega)
    rw [foldl_cons]
    refine ⟨?_,?_,?_⟩
    · rw [h₁]
      simp [Tally.count,Bool.or_assoc,eq_comm]
    · rw [h₂,hx,countP_cons]
      simp only [decide_eq_true_eq]
      omega
    · rw [h₃,hv,length_cons]
      omega

theorem tally_eq (hc : voters.card < 4294967296) :
    (tally id voters).isVoter = decide (id ∈ voters) ∧ (tally id voters).rank.val = rankOf voters id ∧
    (tally id voters).voters.val = voters.card := by
  obtain ⟨l,hl⟩ := Quot.exists_rep voters.val
  have hm : id ∈ l ↔ id ∈ voters := by
    rw [← Finset.mem_val,← hl]
    rfl
  have hle : l.length = voters.card := by
    rw [Finset.card_def,← hl]
    rfl
  have hco : l.countP (· < id) = rankOf voters id := by
    rw [rankOf,Finset.card_def,Finset.filter_val,← Multiset.countP_eq_card_filter,← hl]
    exact (Multiset.coe_countP _ l).symm
  have ht : tally id voters = l.foldl (Tally.count id) ⟨false,0,0⟩ := by
    rw [tally,← hl]
    rfl
  obtain ⟨h₁,h₂,h₃⟩ := @foldl_count id l ⟨false,0,0⟩ (by simpa [hle] using hc)
    (by simpa [hle] using hc)
  rw [ht]
  refine ⟨by simp [h₁,hm],by simp [h₂,hco],by simp [h₃,hle]⟩

end Ranks

section Cluster

structure Cluster where
  nodes : U64 → RunState
  forced : List (U64 × ℕ)

structure Wake where
  nodeId : U64
  now : ℕ
  later : ℕ

variable (voters : Finset U64) (electionTimeout : U64)

def step (s : Cluster) (e : Wake) : Option Cluster :=
  let r := runLeaderlessWatchdog e.nodeId electionTimeout (s.nodes e.nodeId) ⟨false,voters⟩ e.now e.later
  some ⟨Function.update s.nodes e.nodeId r.1,s.forced++r.2.toList.map fun instant => (e.nodeId,instant)⟩

def leaderLost (since : ℕ) : Cluster := ⟨fun _ => ⟨none,some since⟩,[]⟩

end Cluster

section Separation
variable {voters : Finset U64} {electionTimeout : U64} {s s' : Cluster} {e : Wake} {id id' : U64}

/-- The delays of the last rank, and one pass over the ranks, fit the machine words. -/
def Unsaturated (voters : Finset U64) (electionTimeout : U64) : Prop :=
  5+8*voters.card < 4294967296 ∧ (5+8*voters.card)*electionTimeout.val < 18446744073709551616

instance instDecidableUnsaturated : Decidable (Unsaturated voters electionTimeout) :=
  inferInstanceAs (Decidable (_ ∧ _))

theorem val_delay {timeouts : U32} {n : ℕ} (hn : timeouts.val = n)
    (hp : n*electionTimeout.val < 18446744073709551616) :
    (U64.saturatingMul (Fin.ofNat _ timeouts.val) electionTimeout).val = n*electionTimeout.val := by
  have hlt := timeouts.isLt
  have hw : (Fin.ofNat 18446744073709551616 timeouts.val).val = n := by
    rw [Fin.val_ofNat,← hn]
    omega
  have hv : (U64.saturatingMul (Fin.ofNat _ timeouts.val) electionTimeout).val =
      min ((Fin.ofNat 18446744073709551616 timeouts.val).val*electionTimeout.val) 18446744073709551615 := rfl
  rw [hv,hw]
  omega

theorem threshold_eq (h : Unsaturated voters electionTimeout) (hid : id ∈ voters) :
    (leaderlessThreshold (tally id voters).rank electionTimeout).val =
      (5+8*rankOf voters id)*electionTimeout.val := by
  obtain ⟨hc,hp⟩ := h
  have hr := (@tally_eq voters id (by omega)).2.1
  have hlt := rankOf_lt hid
  refine val_delay ?_ (lt_of_le_of_lt (Nat.mul_le_mul_right _ (by omega)) hp)
  have hv : (U32.saturatingAdd baseTimeouts (U32.saturatingMul (tally id voters).rank staggerTimeouts)).val =
      min (5+min ((tally id voters).rank.val*8) 4294967295) 4294967295 := rfl
  rw [hv,hr]
  omega

theorem cooldown_eq (h : Unsaturated voters electionTimeout) (hid : id ∈ voters) :
    (leaderlessCooldown (tally id voters).voters electionTimeout).val =
      8*voters.card*electionTimeout.val := by
  obtain ⟨hc,hp⟩ := h
  have hv := (@tally_eq voters id (by omega)).2.2
  have hpo := Finset.card_pos.2 ⟨id,hid⟩
  refine val_delay ?_ (lt_of_le_of_lt (Nat.mul_le_mul_right _ (by omega)) hp)
  have hm : max (tally id voters).voters 1 = (tally id voters).voters :=
    max_eq_left (by rw [Fin.le_def,hv]; exact hpo)
  have hva : (U32.saturatingMul (tally id voters).voters staggerTimeouts).val =
      min ((tally id voters).voters.val*8) 4294967295 := rfl
  rw [hm,hva,hv]
  omega

/-- When the node is due: at its threshold, then a cooldown after each forced election. -/
def dueAt (voters : Finset U64) (electionTimeout : U64) (since : ℕ) (s : Cluster) (id : U64) : ℕ :=
  match (s.nodes id).leaderlessRecoveryLastFiredAt with
  | none => since+(leaderlessThreshold (tally id voters).rank electionTimeout).val
  | some last => last+(leaderlessCooldown (tally id voters).voters electionTimeout).val

/-- No voter's loop comes round, and no trigger returns, more than `late` after the instant at which the
voter is due. -/
def Punctual (voters : Finset U64) (electionTimeout : U64) (since late : ℕ) (s : Cluster) (e : Wake) :
    Prop :=
  e.nodeId ∈ voters → e.now ≤ e.later ∧ e.later ≤ dueAt voters electionTimeout since s e.nodeId+late

instance instDecidablePunctual (since late : ℕ) :
    Decidable (Punctual voters electionTimeout since late s e) :=
  inferInstanceAs (Decidable (_ → _ ∧ _))

def slot (voters : Finset U64) (electionTimeout : U64) (since : ℕ) (id : U64) (round : ℕ) : ℕ :=
  since+(5+8*(rankOf voters id+voters.card*round))*electionTimeout.val

/-- An instant of one of the first `rounds` rounds, each of which adds `late` to the delay. -/
def Scheduled (voters : Finset U64) (electionTimeout : U64) (since late : ℕ) (id : U64)
    (rounds instant : ℕ) : Prop :=
  ∃ round < rounds, slot voters electionTimeout since id round ≤ instant ∧
    instant ≤ slot voters electionTimeout since id round+(round+1)*late

theorem Scheduled.mono {since late rounds rounds' instant : ℕ}
    (h : Scheduled voters electionTimeout since late id rounds instant) (hr : rounds ≤ rounds') :
    Scheduled voters electionTimeout since late id rounds' instant := by
  obtain ⟨round,hlt,hs⟩ := h
  exact ⟨round,hlt.trans_le hr,hs⟩

theorem slot_apart {since n n' : ℕ} (hid : id ∈ voters) (hi' : id' ∈ voters) (hne : id ≠ id') :
    slot voters electionTimeout since id n+8*electionTimeout.val ≤
        slot voters electionTimeout since id' n' ∨
      slot voters electionTimeout since id' n'+8*electionTimeout.val ≤
        slot voters electionTimeout since id n := by
  have hr := rankOf_ne hid hi' hne
  have hlt := rankOf_lt hid
  have hl' := rankOf_lt hi'
  have hp : rankOf voters id+voters.card*n ≠ rankOf voters id'+voters.card*n' := by
    intro heq
    apply hr
    have hm := congrArg (· % voters.card) heq
    simpa only [Nat.add_mul_mod_self_left,Nat.mod_eq_of_lt hlt,Nat.mod_eq_of_lt hl'] using hm
  simp only [slot]
  generalize rankOf voters id+voters.card*n = p at hp
  generalize rankOf voters id'+voters.card*n' = p' at hp
  have hg : ∀ {a b : ℕ}, a < b → (5+8*a)*electionTimeout.val+8*electionTimeout.val ≤
      (5+8*b)*electionTimeout.val := by
    intro a b hab
    rw [← Nat.add_mul]
    exact Nat.mul_le_mul_right _ (by omega)
  rcases lt_or_gt_of_ne hp with hlt | hlt
  · left
    have := hg hlt
    omega
  · right
    have := hg hlt
    omega

theorem scheduled_apart {since late rounds instant instant' : ℕ} (hid : id ∈ voters)
    (hi' : id' ∈ voters) (hne : id ≠ id')
    (h : Scheduled voters electionTimeout since late id rounds instant)
    (h' : Scheduled voters electionTimeout since late id' rounds instant') :
    instant+8*electionTimeout.val ≤ instant'+rounds*late ∨
      instant'+8*electionTimeout.val ≤ instant+rounds*late := by
  obtain ⟨n,hn,hs,hl⟩ := h
  obtain ⟨n',hn',hs',hl'⟩ := h'
  have hm : (n+1)*late ≤ rounds*late := Nat.mul_le_mul_right late hn
  have hm' : (n'+1)*late ≤ rounds*late := Nat.mul_le_mul_right late hn'
  rcases @slot_apart voters electionTimeout id id' since n n' hid hi' hne with ha | ha
  · left
    omega
  · right
    omega

def Cluster.rounds (s : Cluster) (id : U64) : ℕ := s.forced.countP fun f => f.1 = id

structure Inv (voters : Finset U64) (electionTimeout : U64) (since late : ℕ) (s : Cluster) : Prop where
  lost : ∀ id, (s.nodes id).leaderlessSince = some since
  last : ∀ id last, id ∈ voters → (s.nodes id).leaderlessRecoveryLastFiredAt = some last →
    Scheduled voters electionTimeout since late id (s.rounds id) last
  forced : ∀ f ∈ s.forced, f.1 ∈ voters ∧
    Scheduled voters electionTimeout since late f.1 (s.rounds f.1) f.2

/-- What follows the due instant by no more than `late` lies in a round that the schedule had room for. -/
theorem scheduled_dueAt (h : Unsaturated voters electionTimeout) {since late instant : ℕ}
    (hi : Inv voters electionTimeout since late s) (hid : id ∈ voters)
    (hl : dueAt voters electionTimeout since s id ≤ instant)
    (hu : instant ≤ dueAt voters electionTimeout since s id+late) :
    Scheduled voters electionTimeout since late id (s.rounds id+1) instant := by
  rw [dueAt] at hl hu
  cases hla : (s.nodes id).leaderlessRecoveryLastFiredAt with
  | none =>
    rw [hla,threshold_eq h hid] at hl hu
    refine ⟨0,Nat.succ_pos _,?_⟩
    simpa [slot] using And.intro hl hu
  | some last =>
    obtain ⟨round,hr,hs,hsu⟩ := hi.last id last hid hla
    simp only [hla,cooldown_eq h hid] at hl hu
    have hsl : slot voters electionTimeout since id (round+1) =
        slot voters electionTimeout since id round+8*voters.card*electionTimeout.val := by
      simp only [slot]
      ring
    refine ⟨round+1,Nat.succ_lt_succ hr,?_⟩
    rw [hsl,Nat.succ_mul (round+1)]
    omega

theorem watchdog_cases {since late : ℕ} (hi : Inv voters electionTimeout since late s) (now later : ℕ) :
    let r := runLeaderlessWatchdog id electionTimeout (s.nodes id) ⟨false,voters⟩ now later
    r = (s.nodes id,none) ∨
      (tally id voters).isVoter ∧
      (0 < (leaderlessThreshold (tally id voters).rank electionTimeout).val →
        0 < (leaderlessCooldown (tally id voters).voters electionTimeout).val →
        dueAt voters electionTimeout since s id ≤ now) ∧
      r = (⟨some later,some since⟩,some now) := by
  dsimp only
  rw [runLeaderlessWatchdog,hi.lost id]
  simp only [Bool.false_eq_true,if_false,dueAt]
  cases hv : (tally id voters).isVoter with
  | false => simp
  | true =>
    by_cases ht : now-since < (leaderlessThreshold (tally id voters).rank electionTimeout).val
    · simp [ht]
    cases hl : (s.nodes id).leaderlessRecoveryLastFiredAt with
    | none =>
      right
      simp only [Bool.not_true,Bool.false_eq_true,if_false,if_neg ht,Option.any_none,
        true_and,and_true]
      omega
    | some last =>
      by_cases hc : now-last < (leaderlessCooldown (tally id voters).voters electionTimeout).val
      · simp [ht,hc]
      · right
        simp only [Bool.not_true,Bool.false_eq_true,if_false,if_neg ht,Option.any_some,
          decide_eq_true_eq,if_neg hc,true_and,and_true]
        omega

theorem rounds_le_step {id : U64} {forced : List (U64 × ℕ)} (nodes : U64 → RunState) :
    s.rounds id ≤ Cluster.rounds ⟨nodes,s.forced++forced⟩ id := by
  simp only [Cluster.rounds,countP_append]
  omega

theorem inv_step (h : Unsaturated voters electionTimeout) (hp : 0 < electionTimeout.val)
    {since late : ℕ} (hi : Inv voters electionTimeout since late s)
    (hs : Punctual voters electionTimeout since late s e)
    (hst : step voters electionTimeout s e = some s') : Inv voters electionTimeout since late s' := by
  rw [step,Option.some.injEq] at hst
  subst hst
  rcases @watchdog_cases voters electionTimeout s e.nodeId since late hi e.now e.later with hr | hr
  · rw [hr]
    dsimp only
    rw [Function.update_eq_self]
    simpa using hi
  · obtain ⟨hv,hd,hr⟩ := hr
    rw [hr]
    have hid : e.nodeId ∈ voters := by
      rw [(tally_eq (by have := h.1; omega)).1] at hv
      exact of_decide_eq_true hv
    have hc := Finset.card_pos.2 ⟨_,hid⟩
    rw [threshold_eq h hid,cooldown_eq h hid] at hd
    obtain ⟨hla,hlt⟩ := hs hid
    have hdu := hd (by positivity) (by positivity)
    have hno := scheduled_dueAt h hi hid hdu (hla.trans hlt)
    have hle := scheduled_dueAt h hi hid (hdu.trans hla) hlt
    have hro : ∀ nodes, Cluster.rounds ⟨nodes,s.forced++[(e.nodeId,e.now)]⟩ e.nodeId =
        s.rounds e.nodeId+1 := by
      intro nodes
      simp [Cluster.rounds]
    refine ⟨fun id => ?_,fun id last hm hl => ?_,fun f hf => ?_⟩
    · by_cases heq : id = e.nodeId
      · subst heq
        simp
      · simp [Function.update_of_ne heq,hi.lost id]
    · by_cases heq : id = e.nodeId
      · subst heq
        simp only [Function.update_self,Option.some.injEq] at hl
        rw [← hl,Option.toList_some,map_cons,map_nil,hro]
        exact hle
      · simp only [Function.update_of_ne heq] at hl
        exact (hi.last id last hm hl).mono (rounds_le_step _)
    · rcases mem_append.1 hf with hf | hf
      · obtain ⟨hfv,hfs⟩ := hi.forced f hf
        exact ⟨hfv,hfs.mono (rounds_le_step _)⟩
      · simp only [Option.toList_some,map_cons,map_nil,mem_singleton] at hf
        subst hf
        rw [Option.toList_some,map_cons,map_nil,hro]
        exact ⟨hid,hno⟩

theorem inv_leaderLost (since late : ℕ) :
    Inv voters electionTimeout since late (leaderLost since) := by
  refine ⟨fun _ => rfl,fun id last _ hl => ?_,fun f hf => ?_⟩
  · cases hl
  · cases hf

/-- As long as the words hold the delays, no delay saturates, and where no voter is later than `late` the
elections that different voters force are a stagger apart, up to `late` for each round that was run. -/
theorem forced_apart (voters : Finset U64) (electionTimeout : U64)
    (h : Unsaturated voters electionTimeout) (since late : ℕ) :
    (∀ id ∈ voters,
      (leaderlessThreshold (tally id voters).rank electionTimeout).val =
        (5+8*rankOf voters id)*electionTimeout.val ∧
      (leaderlessCooldown (tally id voters).voters electionTimeout).val =
        8*voters.card*electionTimeout.val) ∧
    (∀ id ∈ voters, ∀ id' ∈ voters, id ≠ id' → rankOf voters id ≠ rankOf voters id') ∧
    ∀ wakes s, Guarded (step voters electionTimeout) (Punctual voters electionTimeout since late)
        (leaderLost since) wakes →
      run (step voters electionTimeout) (leaderLost since) wakes = some s →
      ∀ rounds, (∀ id, s.rounds id ≤ rounds) → ∀ f ∈ s.forced, ∀ g ∈ s.forced, f.1 ≠ g.1 →
        f.2+8*electionTimeout.val ≤ g.2+rounds*late ∨
          g.2+8*electionTimeout.val ≤ f.2+rounds*late := by
  refine ⟨fun id hid => ⟨threshold_eq h hid,cooldown_eq h hid⟩,
    fun id hid id' hi' hne => rankOf_ne hid hi' hne,fun wakes s hg hr rounds hro f hf g hgm hne => ?_⟩
  rcases Nat.eq_zero_or_pos electionTimeout.val with hz | hp
  · rw [hz]
    omega
  · have hin := run_invariant_guarded (fun s e t hi hs hst => inv_step h hp hi hs hst)
      (inv_leaderLost since late) hg hr
    obtain ⟨hfv,hfs⟩ := hin.forced f hf
    obtain ⟨hgv,hgs⟩ := hin.forced g hgm
    exact scheduled_apart hfv hgv hne (hfs.mono (hro _)) (hgs.mono (hro _))

end Separation

def onTime : List Wake := [⟨1,5000,5000⟩,⟨2,13000,13000⟩,⟨3,21000,21000⟩,⟨1,29000,29000⟩]

/-- Each voter at most thirty milliseconds after it is due. -/
def nearlyOnTime : List Wake := [⟨1,5010,5013⟩,⟨2,13000,13002⟩,⟨3,21030,21030⟩,⟨1,29020,29040⟩]

theorem onTime_apart :
    ((run (step {1,2,3} 1000) (leaderLost 0) onTime).map Cluster.forced =
        some [(1,5000),(2,13000),(3,21000),(1,29000)] ∧
      (21000+8*(1000 : U64).val ≤ 29000 ∨ 29000+8*(1000 : U64).val ≤ 21000)) ∧
    (run (step {1,2,3} 1000) (leaderLost 0) nearlyOnTime).map Cluster.forced =
        some [(1,5010),(2,13000),(3,21030),(1,29020)] ∧
      (21030+8*(1000 : U64).val ≤ 29020+60 ∨ 29020+8*(1000 : U64).val ≤ 21030+60) := by
  have hf : (run (step {1,2,3} 1000) (leaderLost 0) onTime).map Cluster.forced =
      some [(1,5000),(2,13000),(3,21000),(1,29000)] := by decide +kernel
  have hn : (run (step {1,2,3} 1000) (leaderLost 0) nearlyOnTime).map Cluster.forced =
      some [(1,5010),(2,13000),(3,21030),(1,29020)] := by decide +kernel
  have hu : Unsaturated {1,2,3} 1000 := by decide +kernel
  refine ⟨⟨hf,?_⟩,hn,?_⟩
  · obtain ⟨s,hr,hs⟩ := Option.map_eq_some_iff.1 hf
    have ha := (forced_apart {1,2,3} 1000 hu 0 0).2.2 onTime s (by decide +kernel) hr 4
    simp only [Cluster.rounds,hs] at ha
    exact ha (fun _ => countP_le_length) (3,21000) (by simp) (1,29000) (by simp) (by decide)
  · obtain ⟨s,hr,hs⟩ := Option.map_eq_some_iff.1 hn
    have ha := (forced_apart {1,2,3} 1000 hu 0 30).2.2 nearlyOnTime s (by decide +kernel) hr 2
    simp only [Cluster.rounds,hs] at ha
    exact ha (fun id => by simp only [countP_cons,countP_nil]; grind) (3,21030) (by simp) (1,29020)
      (by simp) (by decide)

/-- The loop of the first voter comes round nine tenths of a second after it is due. -/
def lateFirst : List Wake := [⟨1,5900,5900⟩,⟨2,13000,13000⟩]

/-- The first voter's trigger takes three milliseconds, so that each of its rounds starts with the tick
after the one at which its cooldown would be over. -/
def drifting : List Wake := (List.range 9).flatMap fun n =>
  [⟨1,5000+25000*n,5003+25000*n⟩,⟨2,13000+24000*n,13000+24000*n⟩]

/-- Two voters of three a second short of the stagger, two voters at the same instant in the ninth
round, and two ranks whose delays saturate to the same. -/
theorem forced_too_close :
    (run (step {1,2,3} 1000) (leaderLost 0) lateFirst).map Cluster.forced =
      some [(1,5900),(2,13000)] ∧
    13000 < 5900+8*(1000 : U64).val ∧
    (run (step {1,2,3} 1000) (leaderLost 0) drifting).map (fun s => s.forced.drop 16) =
      some [(1,205000),(2,205000)] ∧
    leaderlessThreshold 536870912 1000 = leaderlessThreshold 536870913 1000 := by
  refine ⟨by decide +kernel,by decide,by decide +kernel,by decide +kernel⟩

end LeaderlessStagger
end PgBattery
