import PgBattery.StateMachine
import PgBattery.Quorum

/-! The recipient of a cutover asks the donor's nodes whether the donor committed the handoff. It
counts answers by listed address; what the fence rests on is a majority of the donor's voters. -/
namespace PgBattery
namespace DonorQuorum
open StateMachine Quorum List

def CutoverPhase.asStr : CutoverPhase → String
  | .idle => "idle"
  | .armed => "armed"
  | .sealing => "sealing"
  | .sealed => "sealed"
  | .draining => "draining"
  | .transferred => "transferred"
  | .aborted => "aborted"

inductive DonorClaim
  | confirms
  | contradicts
  | silent
  deriving DecidableEq

def donorListCoversMajority (listed reportedVoters : ℕ) : Bool := reportedVoters/2 < listed

def donorQuorumConfirms (claims : List DonorClaim) (donorNodeCount : ℕ) : Bool :=
  if donorNodeCount = 0 then false else donorNodeCount < claims.count .confirms*2

inductive DonorPollVerdict
  | confirmed
  | retry
  | expired
  deriving DecidableEq

def donorPollVerdict (claims : List DonorClaim) (donorNodeCount elapsed budget : ℕ) :
    DonorPollVerdict :=
  if donorQuorumConfirms claims donorNodeCount then .confirmed
  else if budget ≤ elapsed then .expired
  else .retry

structure CutoverStatusResponse where
  epoch : U64
  clusterId : String
  authorityClusterId : Option String
  phase : String
  holdsClientWriteAuthority : Bool
  deriving DecidableEq

inductive MemberRole
  | voter
  | learner
  | unknown
  deriving DecidableEq

structure Reply where
  status : Option CutoverStatusResponse
  members : Option (List MemberRole)

structure CutoverReceiveAuthorityRequest where
  epoch : U64
  fromClusterId : String
  donorMgmtAddrs : List String

structure DonorAnswer where
  claim : DonorClaim
  voterCount : Option ℕ

def donorVoterCount (members : Option (List MemberRole)) : Option ℕ := members.map (·.count .voter)

def describesHandoff (s : CutoverStatusResponse) (epoch : U64) (donor recipient : String) : Bool :=
  s.clusterId = donor && s.phase = CutoverPhase.asStr .transferred && s.epoch = epoch &&
    s.authorityClusterId = some recipient && !s.holdsClientWriteAuthority

def donorClaim (reply : Reply) (epoch : U64) (donor recipient : String) : DonorAnswer :=
  match reply.status with
  | none => ⟨.silent,none⟩
  | some status =>
    if describesHandoff status epoch donor recipient then ⟨.confirms,donorVoterCount reply.members⟩
    else ⟨.contradicts,none⟩

/-- The donor's voters, and the node that answers at an address where one does. -/
structure Donor where
  voters : Finset NodeId
  answersAt : String → Option NodeId

structure Round (donor : Donor) (listed : List String) where
  replies : List (String × Reply)
  asked : (replies.map Prod.fst).Perm listed
  silent : ∀ x ∈ replies, donor.answersAt x.1 = none → x.2.status = none
  elapsed : ℕ

structure Refusal where
  status : ℕ
  message : String
  deriving DecidableEq

def donorQuorumBudget : ℕ := 20000

def listTooShort (voters listed : ℕ) : Refusal :=
  ⟨409,s!"Refusing: a confirming donor reports {voters} voters, but only {listed} donor node(s) were given to confirm against — a majority of the real donor cluster cannot fit in that list. Pass the donor's full node set."⟩

def tooFewConfirm (confirming listed : ℕ) (recipient : String) (epoch : ℕ) : Refusal :=
  let seconds := donorQuorumBudget/1000
  ⟨409,s!"Refusing: only {confirming} of {listed} donor nodes confirm TRANSFERRED to {recipient} at epoch {epoch} after {seconds}s. A majority must, or this cluster would lift its fence on a minority's word."⟩

/-- The first confirming answer whose voter count the list cannot hold a majority of. -/
def uncovered (listed : ℕ) (answers : List DonorAnswer) : Option Refusal :=
  answers.findSome? fun answer => answer.voterCount.bind fun voters =>
    if answer.claim = .confirms ∧ ¬ donorListCoversMajority listed voters then
      some (listTooShort voters listed)
    else none

section Await
variable {donor : Donor} (recipient : String) (body : CutoverReceiveAuthorityRequest)

def Round.answers (r : Round donor body.donorMgmtAddrs) : List DonorAnswer :=
  r.replies.map fun x => donorClaim x.2 body.epoch body.fromClusterId recipient

/-- Poll round after round until a majority of the list confirms or the budget is spent; `none`
while polling goes on. -/
def awaitDonorQuorum : List (Round donor body.donorMgmtAddrs) → Option (Except Refusal ℕ)
  | [] => none
  | r::rounds =>
    let answers := r.answers recipient body
    let claims := answers.map DonorAnswer.claim
    let confirming := claims.count .confirms
    let listed := body.donorMgmtAddrs.length
    match donorPollVerdict claims listed r.elapsed donorQuorumBudget with
    | .confirmed => some (match uncovered listed answers with
      | some refusal => .error refusal
      | none => .ok confirming)
    | .retry => awaitDonorQuorum rounds
    | .expired => some (.error (tooFewConfirm confirming listed recipient body.epoch.val))

def confirmsAt (x : String × Reply) : Bool :=
  (donorClaim x.2 body.epoch body.fromClusterId recipient).claim = .confirms

def Round.confirmers (r : Round donor body.donorMgmtAddrs) : Finset NodeId :=
  ((r.replies.filter (confirmsAt recipient body)).filterMap (donor.answersAt ·.1)).toFinset

end Await

/-- No half of the donor's voters, with the listed addresses that reach a node outside the voters,
makes up more than half of the list. -/
def Representative (donor : Donor) (listed : List String) : Prop :=
  ∀ w ⊆ donor.voters, 2*w.card ≤ donor.voters.card →
    2*listed.countP (fun a => (donor.answersAt a).any fun n => n ∉ donor.voters ∨ n ∈ w) ≤
      listed.length

section Count
variable {donor : Donor} {recipient : String} {body : CutoverReceiveAuthorityRequest}

theorem count_claims (r : Round donor body.donorMgmtAddrs) :
    ((r.answers recipient body).map DonorAnswer.claim).count .confirms =
      r.replies.countP (confirmsAt recipient body) := by
  rw [Round.answers,map_map,List.count,countP_map]
  apply countP_congr
  intro x _
  simp [confirmsAt]

theorem countP_listed (r : Round donor body.donorMgmtAddrs) (p : String → Bool) :
    body.donorMgmtAddrs.countP p = r.replies.countP fun x => p x.1 := by
  rw [← r.asked.countP_eq,countP_map]
  rfl

theorem status_of_confirmsAt {x : String × Reply} (h : confirmsAt recipient body x) :
    x.2.status ≠ none := by
  intro hs
  simp [confirmsAt,donorClaim,hs] at h

theorem exists_confirmer {r : Round donor body.donorMgmtAddrs} {x : String × Reply}
    (hx : x ∈ r.replies) (hc : confirmsAt recipient body x) :
    ∃ n, donor.answersAt x.1 = some n ∧ n ∈ r.confirmers recipient body := by
  cases hn : donor.answersAt x.1 with
  | none => exact absurd (r.silent x hx hn) (status_of_confirmsAt hc)
  | some n =>
    refine ⟨n,rfl,?_⟩
    rw [Round.confirmers,mem_toFinset,mem_filterMap]
    exact ⟨x,mem_filter.2 ⟨hx,hc⟩,hn⟩

theorem majority_of_confirmed {r : Round donor body.donorMgmtAddrs}
    (hr : Representative donor body.donorMgmtAddrs)
    (hq : donorQuorumConfirms ((r.answers recipient body).map DonorAnswer.claim)
      body.donorMgmtAddrs.length) : Majority donor.voters (r.confirmers recipient body) := by
  by_contra hno
  have hh : 2*(donor.voters ∩ r.confirmers recipient body).card ≤ donor.voters.card :=
    not_lt.1 hno
  have hb := hr _ Finset.inter_subset_left hh
  have hle : r.replies.countP (confirmsAt recipient body) ≤ r.replies.countP (fun x =>
      (donor.answersAt x.1).any fun n =>
        n ∉ donor.voters ∨ n ∈ donor.voters ∩ r.confirmers recipient body) := by
    apply countP_mono_left
    intro x hx hc
    obtain ⟨n,hn,hm⟩ := exists_confirmer hx hc
    by_cases hv : n ∈ donor.voters
    · simp [hn,hv,hm]
    · simp [hn,hv]
  rw [countP_listed r] at hb
  rw [donorQuorumConfirms,count_claims] at hq
  split at hq
  · cases hq
  · rw [decide_eq_true_eq] at hq
    omega

theorem confirmed_of_await {rounds : List (Round donor body.donorMgmtAddrs)} {confirming : ℕ}
    (h : awaitDonorQuorum recipient body rounds = some (.ok confirming)) :
    ∃ r ∈ rounds, donorQuorumConfirms ((r.answers recipient body).map DonorAnswer.claim)
      body.donorMgmtAddrs.length := by
  induction rounds with
  | nil => cases h
  | cons r rounds ih =>
    rw [awaitDonorQuorum] at h
    by_cases hq : donorQuorumConfirms ((r.answers recipient body).map DonorAnswer.claim)
        body.donorMgmtAddrs.length
    · exact ⟨r,mem_cons_self,hq⟩
    · by_cases hb : donorQuorumBudget ≤ r.elapsed
      · simp [donorPollVerdict,hq,hb] at h
      · simp only [donorPollVerdict,hq,hb,Bool.false_eq_true,if_false] at h
        obtain ⟨r',hr',hq'⟩ := ih h
        exact ⟨r',mem_cons_of_mem _ hr',hq'⟩

end Count

section Forge
variable (donor : Donor) (recipient : String) (body : CutoverReceiveAuthorityRequest)

def handoffStatus : CutoverStatusResponse :=
  ⟨body.epoch,body.fromClusterId,some recipient,CutoverPhase.asStr .transferred,false⟩

def roundOf (p : String → Bool) (hp : ∀ a, p a → donor.answersAt a ≠ none) :
    Round donor body.donorMgmtAddrs where
  replies := body.donorMgmtAddrs.map fun a =>
    (a,⟨if p a then some (handoffStatus recipient body) else none,none⟩)
  asked := by simp [Function.comp_def]
  silent := by
    intro x hx hn
    obtain ⟨a,_,rfl⟩ := List.mem_map.1 hx
    have hpa : ¬ p a := fun h => hp a h hn
    simp [hpa]
  elapsed := 0

variable {donor recipient body} {p : String → Bool} {hp : ∀ a, p a → donor.answersAt a ≠ none}

theorem donorClaim_roundOf (a : String) :
    donorClaim ⟨if p a then some (handoffStatus recipient body) else none,none⟩ body.epoch
      body.fromClusterId recipient = ⟨if p a then .confirms else .silent,none⟩ := by
  cases p a <;> simp [donorClaim,describesHandoff,handoffStatus,donorVoterCount]

theorem await_roundOf (hlt : body.donorMgmtAddrs.length < 2*body.donorMgmtAddrs.countP p) :
    awaitDonorQuorum recipient body [roundOf donor recipient body p hp] =
      some (.ok (body.donorMgmtAddrs.countP p)) := by
  have ha : (roundOf donor recipient body p hp).answers recipient body =
      body.donorMgmtAddrs.map fun a => ⟨if p a then .confirms else .silent,none⟩ := by
    rw [Round.answers,roundOf,map_map]
    exact map_congr_left fun a _ => donorClaim_roundOf a
  have hc : (body.donorMgmtAddrs.map fun a =>
      if p a then DonorClaim.confirms else .silent).count .confirms =
      body.donorMgmtAddrs.countP p := by
    rw [List.count,countP_map]
    apply countP_congr
    intro a _
    cases hpa : p a <;> simp [hpa]
  have hn : uncovered body.donorMgmtAddrs.length (body.donorMgmtAddrs.map fun a =>
      ⟨if p a then .confirms else .silent,none⟩) = none := by
    rw [uncovered,List.findSome?_eq_none_iff]
    intro x hx
    obtain ⟨a,_,rfl⟩ := mem_map.1 hx
    rfl
  have hq : donorQuorumConfirms (body.donorMgmtAddrs.map fun a =>
      if p a then DonorClaim.confirms else .silent) body.donorMgmtAddrs.length := by
    have hle : body.donorMgmtAddrs.countP p ≤ body.donorMgmtAddrs.length := countP_le_length
    have hpo : body.donorMgmtAddrs.length ≠ 0 := by omega
    rw [donorQuorumConfirms,hc,if_neg hpo,decide_eq_true_eq]
    omega
  rw [awaitDonorQuorum,ha]
  simp only [map_map,Function.comp_def,donorPollVerdict,hq,if_true,hn,hc]

theorem answersAt_of_confirmers {n : NodeId}
    (h : n ∈ (roundOf donor recipient body p hp).confirmers recipient body) :
    ∃ a, p a ∧ donor.answersAt a = some n := by
  rw [Round.confirmers,mem_toFinset,mem_filterMap] at h
  obtain ⟨x,hx,hn⟩ := h
  obtain ⟨hx,hc⟩ := mem_filter.1 hx
  obtain ⟨a,_,rfl⟩ := mem_map.1 hx
  refine ⟨a,?_,hn⟩
  rw [confirmsAt,donorClaim_roundOf] at hc
  cases hpa : p a with
  | true => rfl
  | false => simp [hpa] at hc

end Forge

/-- Acceptance stands for a majority of the donor's voters, whatever is answered, exactly when the
listed addresses are representative of them. -/
theorem donor_majority_iff_representative (donor : Donor) (recipient : String)
    (body : CutoverReceiveAuthorityRequest) :
    (∀ (rounds : List (Round donor body.donorMgmtAddrs)) confirming,
      awaitDonorQuorum recipient body rounds = some (.ok confirming) →
        ∃ r ∈ rounds, Majority donor.voters (r.confirmers recipient body)) ↔
      Representative donor body.donorMgmtAddrs := by
  constructor
  · intro h w hw hh
    by_contra hgt
    have hp : ∀ a, (donor.answersAt a).any (fun n => n ∉ donor.voters ∨ n ∈ w) →
        donor.answersAt a ≠ none := by
      intro a ha hn
      simp [hn] at ha
    obtain ⟨r,hr,hm⟩ := h [roundOf donor recipient body _ hp] _ (await_roundOf (not_le.1 hgt))
    rw [mem_singleton] at hr
    subst hr
    have hs : donor.voters ∩ (roundOf donor recipient body _ hp).confirmers recipient body ⊆ w := by
      intro n hn
      obtain ⟨hv,hc⟩ := Finset.mem_inter.1 hn
      obtain ⟨a,ha,hat⟩ := answersAt_of_confirmers hc
      simpa [hat,hv] using ha
    have hca := Finset.card_le_card hs
    unfold Majority at hm
    omega
  · intro hre rounds confirming h
    obtain ⟨r,hr,hq⟩ := confirmed_of_await h
    exact ⟨r,hr,majority_of_confirmed hre hq⟩

def threeOfFive : Donor where
  voters := {1,2,3,4,5}
  answersAt a := if a = "blue1:9091" then some 1 else if a = "blue2:9091" then some 2
    else if a = "blue3:9091" then some 3 else none

def handoffToGreen (addrs : List String) : CutoverReceiveAuthorityRequest := ⟨7,"blue",addrs⟩

def confirmingReply (addrs : List String) (voters : ℕ) : Reply :=
  ⟨some (handoffStatus "green" (handoffToGreen addrs)),some (List.replicate voters .voter)⟩

def twoOfThreeConfirm :
    Round threeOfFive (handoffToGreen ["blue1:9091","blue2:9091","blue3:9091"]).donorMgmtAddrs where
  replies := [("blue1:9091",confirmingReply [] 5),("blue2:9091",confirmingReply [] 5),
    ("blue3:9091",⟨none,none⟩)]
  asked := List.Perm.refl _
  silent := by decide
  elapsed := 0

def oneOfThree : Donor where
  voters := {1,2,3}
  answersAt a := if a = "blue1:9091" then some 1 else none

def listedTwice :
    Round oneOfThree (handoffToGreen ["blue1:9091","blue1:9091"]).donorMgmtAddrs where
  replies := [("blue1:9091",confirmingReply [] 3),("blue1:9091",confirmingReply [] 3)]
  asked := List.Perm.refl _
  silent := by decide
  elapsed := 0

theorem minority_confirms_handoff :
    (awaitDonorQuorum "green" (handoffToGreen ["blue1:9091","blue1:9091"]) [listedTwice] =
        some (.ok 2) ∧
      ¬ Majority oneOfThree.voters
        (listedTwice.confirmers "green" (handoffToGreen ["blue1:9091","blue1:9091"]))) ∧
    awaitDonorQuorum "green" (handoffToGreen ["blue1:9091","blue2:9091","blue3:9091"])
        [twoOfThreeConfirm] = some (.ok 2) ∧
      ¬ Majority threeOfFive.voters (twoOfThreeConfirm.confirmers "green"
        (handoffToGreen ["blue1:9091","blue2:9091","blue3:9091"])) := by
  refine ⟨⟨rfl,?_⟩,rfl,?_⟩
  · decide
  · decide

end DonorQuorum
end PgBattery
