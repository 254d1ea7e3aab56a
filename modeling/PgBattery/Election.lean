import PgBattery.WalPosition
import PgBattery.Replication
import PgBattery.TransitionSystem

/-! Elections over several terms, on Raft's votes and on the write-ahead logs the voters compare:
leaders write and are deposed, standbys stream, stop, rewind and are wiped in between. -/
namespace PgBattery
namespace Election
open StateMachine Replication WalPosition Quorum TransitionSystem List

/-- What is known of openraft's votes, here called ballots: they are ordered, each names the node
that asks for it, and one of a later term is above. A term may have several. -/
structure Ballots (B : Type) [PartialOrder B] where
  term : B → ℕ
  owner : B → NodeId
  lt_of_term : ∀ a b, term a < term b → a < b

/-- A vote request on its way: the position is the one the candidate read when it sent it. -/
structure Frame (B : Type) where
  ballot : B
  lsn : Option U64
  lastLog : Option (B × ℕ)

/-- A vote request that passed a voter's gate, with the position the voter read for it; Raft's own
answer comes after. -/
structure Checked (B : Type) where
  voter : NodeId
  frame : Frame B
  own : OwnWal

/-- An acknowledged write: the log up to it on its leader, and the nodes that held that. -/
structure Ack (B : Type) where
  ballot : B
  history : List Record
  write : Record
  holders : Finset NodeId

structure Cluster (B : Type) where
  pg : NodeId → Option Directory
  ballot : NodeId → B
  lastLog : NodeId → Option (B × ℕ)
  frames : List (Frame B)
  checked : List (Checked B)
  grants : Finset (B × NodeId)
  won : Finset B
  acked : List (Ack B)

inductive ServerEvent
  | append (r : Record)
  | stream (source : NodeId) (n : ℕ)
  | replay (lsn : U64)
  | stop (checkpoint : U64)
  | crash
  | start (inRecovery : Bool)
  | promote

inductive Event (B : Type)
  | server (p : NodeId) (e : ServerEvent)
  | follow (p : NodeId) (n : ℕ)
  | wipe (p : NodeId)
  | stand (ballot : B)
  | request (c : NodeId)
  | check (p : NodeId) (i : ℕ) (mode : Option Bool)
  | grant (i : ℕ)
  | win (c : NodeId)
  | learn (p : NodeId) (ballot : B)
  | propose (q : NodeId)
  | replicate (p : NodeId)
  | ack (ballot : B) (n : ℕ) (standbys : Finset NodeId)

-- without it the quantifier is decided over all words
instance decidableForallMem (t : Finset NodeId) (P : NodeId → Prop) [DecidablePred P] :
    Decidable (∀ p ∈ t, P p) :=
  Finset.decidableDforallFinset

section Step
variable {B : Type} [PartialOrder B] [DecidableEq B] [DecidableLE B] [DecidableLT B]
variable (β : Ballots B)

def Cluster.grantsOf (s : Cluster B) (ballot : B) : Finset NodeId :=
  (s.grants.filter fun g => g.1 = ballot).image Prod.snd

def Cluster.setPg (s : Cluster B) (p : NodeId) (d : Option Directory) : Cluster B :=
  {s with pg := Function.update s.pg p d}

def Cluster.holds (s : Cluster B) (p : NodeId) (history : List Record) : Bool :=
  (s.pg p).any fun d => history.isPrefixOf d.wal.entries

/-- Raft's own rule: the candidate's last entry is not older than the voter's. -/
def upToDate : Option (B × ℕ) → Option (B × ℕ) → Bool
  | none,_ => true
  | some _,none => false
  | some voter,some candidate =>
    voter.1 < candidate.1 || voter.1 = candidate.1 && voter.2 ≤ candidate.2

/-- A rewind keeps what both logs share; a directory made anew is a full copy. -/
def keepsShared (d : Option Directory) (source : Directory) (n : ℕ) : Bool :=
  match d with
  | none => source.wal.entries.length ≤ n
  | some d => (History.common d.wal.entries source.wal.entries).isPrefixOf (source.wal.take n).entries

def Cluster.leads (s : Cluster B) (p : NodeId) : Prop := s.ballot p ∈ s.won ∧ β.owner (s.ballot p) = p

instance decidableLeads (s : Cluster B) (p : NodeId) : Decidable (s.leads β p) :=
  inferInstanceAs (Decidable (_ ∧ _))

def stepServer (s : Cluster B) (p : NodeId) (d : Directory) : ServerEvent → Option Directory
  | .append r =>
    if h : d.server.isPrimary ∧ d.wal.position < r.lsn then
      some (d.extend (d.wal.append r h.2) (List.prefix_append _ _))
    else none
  | .stream source n => (s.pg source).bind fun e =>
    if h : (d.server.isStandby ∧ e.server.isPrimary) ∧
        d.wal.entries.isPrefixOf (e.wal.take n).entries then
      some (.streaming (e.wal.take n) d.replayed
        (d.replayed_le.trans (History.position_mono (List.isPrefixOf_iff_prefix.1 h.2))))
    else none
  | .replay lsn =>
    if h : d.server.isStandby ∧ lsn ≤ d.wal.position then some (d.replay lsn h.2) else none
  | .stop checkpoint => if h : checkpoint ≤ d.replayed then some (d.stop checkpoint h) else none
  | .crash => some (d.serve .crashed rfl)
  | .start inRecovery =>
    if d.server.isPrimary ∨ d.server.isStandby then none
    else if inRecovery then some (d.serve (.standby none) rfl)
    else some (d.serve .primary rfl)
  | .promote =>
    if d.server.isStandby ∧ s.leads β p then some (d.serve .primary rfl) else none

/-- A voter grants every ballot that is not below its own, so that within a term it may grant
several. -/
def step (voters : Finset NodeId) (s : Cluster B) : Event B → Option (Cluster B)
  | .server p e => (s.pg p).bind fun d => (stepServer β s p d e).map fun d => s.setPg p (some d)
  | .follow p n => (s.pg (β.owner (s.ballot p))).bind fun source =>
    if s.ballot p ∈ s.won ∧ β.owner (s.ballot p) ≠ p ∧ source.server.isPrimary ∧
        keepsShared (s.pg p) source n then
      some (s.setPg p (some (.made (source.wal.take n))))
    else none
  | .wipe p => some (s.setPg p none)
  | .stand b =>
    if β.owner b ∈ voters ∧ s.ballot (β.owner b) < b then
      some {s with
        ballot := Function.update s.ballot (β.owner b) b
        grants := insert (b,β.owner b) s.grants}
    else none
  | .request c =>
    if β.owner (s.ballot c) = c then
      some {s with
        frames := ⟨s.ballot c,(LocalWal.read (s.pg c)).position,s.lastLog c⟩::s.frames}
    else none
  | .check p i mode => s.frames[i]?.bind fun f =>
    if p ≠ β.owner f.ballot ∧ mode ≠ some false ∧
        (voteLsnGate f.lsn (LocalWal.read (s.pg p)) (voteLsnThresholdBytes mode)).isOk then
      some {s with checked := ⟨p,f,LocalWal.read (s.pg p)⟩::s.checked}
    else none
  | .grant i => s.checked[i]?.bind fun g =>
    if g.voter ∈ voters ∧ upToDate (s.lastLog g.voter) g.frame.lastLog ∧
        s.ballot g.voter ≤ g.frame.ballot then
      some {s with
        ballot := Function.update s.ballot g.voter g.frame.ballot
        grants := insert (g.frame.ballot,g.voter) s.grants}
    else none
  | .win c =>
    if β.owner (s.ballot c) = c ∧ Majority voters (s.grantsOf (s.ballot c)) then
      some {s with won := insert (s.ballot c) s.won}
    else none
  | .learn p b =>
    if s.ballot p < b then some {s with ballot := Function.update s.ballot p b} else none
  | .propose q =>
    if s.leads β q then
      some {s with
        lastLog := Function.update s.lastLog q
          (some (s.ballot q,(s.lastLog q).elim 0 fun l => l.2+1))}
    else none
  | .replicate p =>
    if s.ballot p ∈ s.won ∧ s.leads β (β.owner (s.ballot p)) ∧
        s.ballot (β.owner (s.ballot p)) = s.ballot p then
      some {s with lastLog := Function.update s.lastLog p (s.lastLog (β.owner (s.ballot p)))}
    else none
  | .ack b n standbys => (s.pg (β.owner b)).bind fun d =>
    (d.wal.entries.take n).getLast?.bind fun write =>
      if b ∈ s.won ∧ d.server.isPrimary ∧ β.owner b ∈ voters ∧
          standbys ⊆ voters.erase (β.owner b) ∧
          standbys.card = requiredSyncStandbys (voters.card-1) ∧
          ∀ p ∈ standbys, s.holds p (d.wal.entries.take n) then
        some {s with
          acked := ⟨b,d.wal.entries.take n,write,insert (β.owner b) standbys⟩::s.acked}
      else none

/-- Every node holds some log, no one has been elected and nothing is acknowledged yet. -/
structure Start (s : Cluster B) : Prop where
  frames : s.frames = []
  checked : s.checked = []
  grants : s.grants = ∅
  won : s.won = ∅
  acked : s.acked = []

/-- What the elections need of their surroundings. A write is acknowledged by nodes whose ballot is
still its leader's. A voter that has held an acknowledged write votes with its directory in place,
on a position that is the end of its log when it votes, and for a candidate on one history with it;
standing counts as voting. A directory is only lost on a node that follows the leader of its
ballot. -/
def Steady (s : Cluster B) : Event B → Prop
  | .ack b _ standbys => ∀ p ∈ insert (β.owner b) standbys, s.ballot p = b
  | .stand b => (∃ a ∈ s.acked, β.owner b ∈ a.holders) → s.pg (β.owner b) ≠ none
  | .grant i => ∀ g, s.checked[i]? = some g → (∃ a ∈ s.acked, g.voter ∈ a.holders) →
    ∃ d, s.pg g.voter = some d ∧ g.own = .at d.wal.position ∧
      ∀ e, s.pg (β.owner g.frame.ballot) = some e → History.Comparable d.wal e.wal
  | .wipe p => s.ballot p ∈ s.won ∧ β.owner (s.ballot p) ≠ p
  | .server .. | .follow .. | .request _ | .check .. | .win _ | .learn .. | .propose _
  | .replicate _ => True

instance decidableSteady (s : Cluster B) : ∀ e, Decidable (Steady β s e)
  | .ack b _ standbys =>
    inferInstanceAs (Decidable (∀ p ∈ insert (β.owner b) standbys, s.ballot p = b))
  | .stand b =>
    inferInstanceAs (Decidable ((∃ a ∈ s.acked, β.owner b ∈ a.holders) → s.pg (β.owner b) ≠ none))
  | .grant i => inferInstanceAs (Decidable (∀ g ∈ s.checked[i]?,
      (∃ a ∈ s.acked, g.voter ∈ a.holders) → ∃ d ∈ s.pg g.voter, g.own = .at d.wal.position ∧
        ∀ e ∈ s.pg (β.owner g.frame.ballot), History.Comparable d.wal e.wal))
  | .wipe p => inferInstanceAs (Decidable (s.ballot p ∈ s.won ∧ β.owner (s.ballot p) ≠ p))
  | .server .. | .follow .. | .request _ | .check .. | .win _ | .learn .. | .propose _
  | .replicate _ => isTrue trivial

end Step

theorem mem_grantsOf {B : Type} [DecidableEq B] {s : Cluster B} {b : B} {p : NodeId} :
    p ∈ s.grantsOf b ↔ (b,p) ∈ s.grants := by
  simp [Cluster.grantsOf]

theorem prefix_of_holds {B : Type} {s : Cluster B} {p : NodeId} {history : List Record}
    (hp : s.holds p history) {d : Directory} (hd : s.pg p = some d) :
    history <+: d.wal.entries := by
  simpa [Cluster.holds,hd] using hp

theorem le_update {B : Type} [PartialOrder B] {b : B} {p : NodeId} (f : NodeId → B)
    (hle : f p ≤ b) (q : NodeId) : f q ≤ Function.update f p b q := by
  by_cases hq : q = p
  · subst hq
    simpa using hle
  · rw [Function.update_of_ne hq]

section Inv
variable {B : Type} [PartialOrder B]
variable (β : Ballots B) (voters : Finset NodeId) (s : Cluster B)

/-- The nodes that must keep an acknowledged write: its holders and every later leader. -/
def Custodian (a : Ack B) (p : NodeId) : Prop :=
  p ∈ a.holders ∨ ∃ b, a.ballot < b ∧ b ∈ s.won ∧ β.owner b = p

structure Inv [DecidableEq B] : Prop where
  voted : ∀ b p, (b,p) ∈ s.grants → b ≤ s.ballot p ∧ b ≤ s.ballot (β.owner b)
  elected : ∀ b ∈ s.won, b ≤ s.ballot (β.owner b) ∧ Majority voters (s.grantsOf b)
  framed : ∀ f ∈ s.frames, f.ballot ≤ s.ballot (β.owner f.ballot) ∧
    (s.ballot (β.owner f.ballot) = f.ballot → ∀ lsn, f.lsn = some lsn →
      ∃ d, s.pg (β.owner f.ballot) = some d ∧ lsn ≤ d.wal.position)
  gated : ∀ g ∈ s.checked, g.frame ∈ s.frames ∧ g.voter ≠ β.owner g.frame.ballot ∧
    (voteLsnGate g.frame.lsn g.own 0).isOk
  acknowledged : ∀ a ∈ s.acked, a.ballot ∈ s.won ∧ β.owner a.ballot ∈ a.holders ∧
    a.write ∈ a.history ∧ voters.card ≤ 2*(voters ∩ a.holders).card
  custody : ∀ a ∈ s.acked, ∀ p, Custodian β s a p →
    a.ballot ≤ s.ballot p ∧ ∀ d, s.pg p = some d → a.history <+: d.wal.entries
  granted : ∀ a ∈ s.acked, ∀ b p, (b,p) ∈ s.grants → a.ballot < b → p ∈ a.holders →
    s.ballot (β.owner b) = b → ∃ d, s.pg (β.owner b) = some d ∧ a.history <+: d.wal.entries

end Inv

section Proof
variable {B : Type} [PartialOrder B] [DecidableEq B]
variable {β : Ballots B} {voters : Finset NodeId} {s : Cluster B} {b : B} {c p : NodeId}

theorem inv_start (h : Start s) : Inv β voters s where
  voted := by simp [h.grants]
  elected := by simp [h.won]
  framed := by simp [h.frames]
  gated := by simp [h.checked]
  acknowledged := by simp [h.acked]
  custody := by simp [h.acked]
  granted := by simp [h.acked]

/-- Half of the voters meet every majority. -/
theorem exists_holder {holders q : Finset NodeId} (hc : voters.card ≤ 2*(voters ∩ holders).card)
    (hq : Majority voters q) : ∃ p, p ∈ holders ∧ p ∈ q := by
  unfold Majority at hq
  obtain ⟨p,_,hp,hpq⟩ := exists_common (by omega :
    voters.card < (voters ∩ holders).card+(voters ∩ q).card)
  exact ⟨p,hp,hpq⟩

theorem Inv.custodian_leader (h : Inv β voters s) {a : Ack B} (ha : a ∈ s.acked)
    (hp : Custodian β s a p) (hw : s.ballot p ∈ s.won) :
    Custodian β s a (β.owner (s.ballot p)) := by
  rcases (h.custody a ha p hp).1.lt_or_eq with hlt | heq
  · exact .inr ⟨_,hlt,hw,rfl⟩
  · rw [← heq]
    exact .inl (h.acknowledged a ha).2.1

theorem inv_setPg (h : Inv β voters s) {new : Option Directory}
    (hk : ∀ a ∈ s.acked, Custodian β s a p → ∀ d, new = some d → a.history <+: d.wal.entries)
    (hca : β.owner (s.ballot p) = p → ∀ d, s.pg p = some d →
      ∃ d', new = some d' ∧ d.wal.entries <+: d'.wal.entries) : Inv β voters (s.setPg p new) := by
  have hm : ∀ b, s.ballot (β.owner b) = b → ∀ d, s.pg (β.owner b) = some d →
      ∃ d', (s.setPg p new).pg (β.owner b) = some d' ∧ d.wal.entries <+: d'.wal.entries := by
    intro b hb d hd
    by_cases hc : β.owner b = p
    · subst hc
      obtain ⟨d',hn,hp⟩ := hca (by rw [hb]) d hd
      exact ⟨d',by simp [Cluster.setPg,hn],hp⟩
    · exact ⟨d,by simp [Cluster.setPg,Function.update_of_ne hc,hd],prefix_rfl⟩
  refine {h with framed := ?_, custody := ?_, granted := ?_}
  · intro f hf
    refine ⟨(h.framed f hf).1,fun hb lsn hl => ?_⟩
    obtain ⟨d,hd,hle⟩ := (h.framed f hf).2 hb lsn hl
    obtain ⟨d',hd',hp⟩ := hm f.ballot hb d hd
    exact ⟨d',hd',hle.trans (History.position_mono hp)⟩
  · intro a ha c hc
    refine ⟨(h.custody a ha c hc).1,fun d hd => ?_⟩
    by_cases hcp : c = p
    · subst hcp
      exact hk a ha hc d (by simpa [Cluster.setPg] using hd)
    · exact (h.custody a ha c hc).2 d (by simpa [Cluster.setPg,Function.update_of_ne hcp] using hd)
  · intro a ha b v hg hlt hv hb
    obtain ⟨d,hd,hp⟩ := h.granted a ha b v hg hlt hv hb
    obtain ⟨d',hd',hp'⟩ := hm b hb d hd
    exact ⟨d',hd',hp.trans hp'⟩

theorem inv_grow (h : Inv β voters s) {d d' : Directory} (hd : s.pg p = some d)
    (hp : d.wal.entries <+: d'.wal.entries) : Inv β voters (s.setPg p (some d')) := by
  refine inv_setPg h ?_ ?_
  · intro a ha hc e he
    cases he
    exact ((h.custody a ha p hc).2 d hd).trans hp
  · intro _ e he
    rw [hd] at he
    cases he
    exact ⟨d',rfl,hp⟩

/-- A candidate with a majority for its ballot holds every write acknowledged under an earlier one:
one of the write's holders has granted it. -/
theorem Inv.candidate_holds (h : Inv β voters s) {a : Ack B} (ha : a ∈ s.acked)
    (hc : β.owner (s.ballot c) = c) (hm : Majority voters (s.grantsOf (s.ballot c)))
    (hlt : a.ballot < s.ballot c) : ∃ d, s.pg c = some d ∧ a.history <+: d.wal.entries := by
  obtain ⟨p,hp,hg⟩ := exists_holder (h.acknowledged a ha).2.2.2 hm
  have hd := h.granted a ha _ p (mem_grantsOf.1 hg) hlt hp (by rw [hc])
  rwa [hc] at hd

theorem stepServer_grows {d d' : Directory} {e : ServerEvent}
    (he : stepServer β s p d e = some d') :
    d.wal.entries <+: d'.wal.entries := by
  cases e <;> simp only [stepServer,Option.bind_eq_some_iff,Option.dite_none_right_eq_some,
    Option.ite_none_right_eq_some,Option.ite_none_left_eq_some,Option.some.injEq] at he
  case append =>
    obtain ⟨_,rfl⟩ := he
    exact prefix_append _ _
  case stream =>
    obtain ⟨e,_,h,rfl⟩ := he
    exact isPrefixOf_iff_prefix.1 h.2
  case start =>
    obtain ⟨_,he⟩ := he
    split at he <;> cases he <;> exact prefix_rfl
  case crash =>
    subst he
    exact prefix_rfl
  all_goals
    obtain ⟨_,rfl⟩ := he
    exact prefix_rfl

theorem inv_follow (h : Inv β voters s) {n : ℕ} {source : Directory}
    (hq : s.pg (β.owner (s.ballot p)) = some source) (hw : s.ballot p ∈ s.won)
    (hne : β.owner (s.ballot p) ≠ p) (hs : keepsShared (s.pg p) source n) :
    Inv β voters (s.setPg p (some (.made (source.wal.take n)))) := by
  refine inv_setPg h ?_ fun ho => absurd ho hne
  intro a ha hc d hd
  cases hd
  have hso := (h.custody a ha _ (h.custodian_leader ha hc hw)).2 source hq
  cases hp : s.pg p with
  | none =>
    simp only [keepsShared,hp,decide_eq_true_eq] at hs
    simpa [Directory.made,History.take,take_of_length_le hs] using hso
  | some d =>
    simp only [keepsShared,hp,List.isPrefixOf_iff_prefix] at hs
    exact (History.prefix_common ((h.custody a ha p hc).2 d hp) hso).trans hs

theorem inv_votes (h : Inv β voters s) {ballot : NodeId → B} {grants : Finset (B × NodeId)}
    (hb : ∀ q, s.ballot q ≤ ballot q) (hsu : s.grants ⊆ grants)
    (hv : ∀ b p, (b,p) ∈ grants → b ≤ ballot p ∧ b ≤ ballot (β.owner b))
    (hn : ∀ b p, (b,p) ∈ grants → (b,p) ∉ s.grants → ∀ a ∈ s.acked, a.ballot < b →
      p ∈ a.holders → ballot (β.owner b) = b →
      ∃ d, s.pg (β.owner b) = some d ∧ a.history <+: d.wal.entries) :
    Inv β voters {s with ballot := ballot, grants := grants} where
  voted := hv
  elected := by
    intro b hw
    obtain ⟨hle,hm⟩ := h.elected b hw
    refine ⟨hle.trans (hb _),hm.mono fun p hp => ?_⟩
    exact mem_grantsOf.2 (hsu (mem_grantsOf.1 (Finset.mem_inter.1 hp).2))
  framed := by
    intro f hf
    obtain ⟨hle,hpo⟩ := h.framed f hf
    refine ⟨hle.trans (hb _),fun heq => hpo ?_⟩
    exact le_antisymm ((hb _).trans heq.le) hle
  gated := h.gated
  acknowledged := h.acknowledged
  custody := by
    intro a ha p hp
    obtain ⟨hle,hk⟩ := h.custody a ha p hp
    exact ⟨hle.trans (hb p),hk⟩
  granted := by
    intro a ha b p hg hlt hp heq
    by_cases hold : (b,p) ∈ s.grants
    · have hle := (h.voted b p hold).2
      exact h.granted a ha b p hold hlt hp (le_antisymm ((hb _).trans heq.le) hle)
    · exact hn b p hg hold a ha hlt hp heq

theorem inv_vote (h : Inv β voters s) (hle : s.ballot p ≤ b)
    (hc : b ≤ Function.update s.ballot p b (β.owner b))
    (hh : ∀ a ∈ s.acked, a.ballot < b → p ∈ a.holders →
      Function.update s.ballot p b (β.owner b) = b →
      ∃ d, s.pg (β.owner b) = some d ∧ a.history <+: d.wal.entries) :
    Inv β voters {s with
      ballot := Function.update s.ballot p b
      grants := insert (b,p) s.grants} := by
  have hb := le_update s.ballot hle
  refine inv_votes h hb (Finset.subset_insert _ _) ?_ ?_
  · intro b' p' hg
    rcases Finset.mem_insert.1 hg with heq | hold
    · cases heq
      simpa using hc
    · obtain ⟨hp,ho⟩ := h.voted b' p' hold
      exact ⟨hp.trans (hb p'),ho.trans (hb _)⟩
  · intro b' p' hg hno
    rcases Finset.mem_insert.1 hg with heq | hold
    · cases heq
      exact hh
    · exact absurd hold hno

theorem inv_stand (h : Inv β voters s) (hlt : s.ballot (β.owner b) < b)
    (hk : (∃ a ∈ s.acked, β.owner b ∈ a.holders) → s.pg (β.owner b) ≠ none) :
    Inv β voters {s with
      ballot := Function.update s.ballot (β.owner b) b
      grants := insert (b,β.owner b) s.grants} := by
  refine inv_vote h hlt.le (by simp) ?_
  intro a ha _ hc _
  obtain ⟨d,hd⟩ := Option.ne_none_iff_exists'.1 (hk ⟨a,ha,hc⟩)
  exact ⟨d,hd,(h.custody a ha _ (.inl hc)).2 d hd⟩

/-- The gate compares the holder's whole log with a position the candidate's log has reached, and
the two are on one history: so the candidate's log contains the holder's. -/
theorem inv_grant (h : Inv β voters s) {g : Checked B} (hg : g ∈ s.checked)
    (hle : s.ballot g.voter ≤ g.frame.ballot)
    (hs : (∃ a ∈ s.acked, g.voter ∈ a.holders) → ∃ d, s.pg g.voter = some d ∧
      g.own = .at d.wal.position ∧
      ∀ e, s.pg (β.owner g.frame.ballot) = some e → History.Comparable d.wal e.wal) :
    Inv β voters {s with
      ballot := Function.update s.ballot g.voter g.frame.ballot
      grants := insert (g.frame.ballot,g.voter) s.grants} := by
  obtain ⟨hf,hne,hga⟩ := h.gated g hg
  obtain ⟨hfl,hpo⟩ := h.framed g.frame hf
  refine inv_vote h hle (by rwa [Function.update_of_ne hne.symm]) ?_
  intro a ha _ hp hb
  rw [Function.update_of_ne hne.symm] at hb
  obtain ⟨d,hd,ho,hc⟩ := hs ⟨a,ha,hp⟩
  rw [ho] at hga
  obtain ⟨lsn,hl,hle⟩ := le_of_voteLsnGate hga
  obtain ⟨e,he,hr⟩ := hpo hb lsn hl
  have hpr := History.prefix_of_position_le (hc e he) (hle.trans hr)
  exact ⟨e,he,((h.custody a ha _ (.inl hp)).2 d hd).trans hpr⟩

theorem inv_learn (h : Inv β voters s) (hlt : s.ballot p < b) :
    Inv β voters {s with ballot := Function.update s.ballot p b} := by
  have hb := le_update s.ballot hlt.le
  refine inv_votes h hb subset_rfl ?_ fun _ _ hg hn => absurd hg hn
  intro b' p' hg
  obtain ⟨hp,ho⟩ := h.voted b' p' hg
  exact ⟨hp.trans (hb p'),ho.trans (hb _)⟩

theorem inv_request (h : Inv β voters s) (hc : β.owner (s.ballot c) = c) :
    Inv β voters {s with
      frames := ⟨s.ballot c,(LocalWal.read (s.pg c)).position,s.lastLog c⟩::s.frames} := by
  refine {h with framed := ?_, gated := fun g hg => ?_}
  case refine_2 => exact ⟨mem_cons_of_mem _ (h.gated g hg).1,(h.gated g hg).2⟩
  intro f hf
  rcases mem_cons.1 hf with rfl | hold
  · rw [hc]
    refine ⟨le_rfl,fun _ lsn hl => ?_⟩
    cases hd : s.pg c with
    | none => simp [hd,LocalWal.read,OwnWal.position] at hl
    | some d =>
      refine ⟨d,rfl,read_le ?_⟩
      cases hr : LocalWal.read (some d) <;> simp_all [OwnWal.position]
  · exact h.framed f hold

theorem inv_check (h : Inv β voters s) {g : Checked B} (hf : g.frame ∈ s.frames)
    (hne : g.voter ≠ β.owner g.frame.ballot) (hg : (voteLsnGate g.frame.lsn g.own 0).isOk) :
    Inv β voters {s with checked := g::s.checked} := by
  refine {h with gated := ?_}
  intro g' hg'
  rcases mem_cons.1 hg' with rfl | hold
  · exact ⟨hf,hne,hg⟩
  · exact h.gated g' hold

theorem inv_win (h : Inv β voters s) (hc : β.owner (s.ballot c) = c)
    (hm : Majority voters (s.grantsOf (s.ballot c))) :
    Inv β voters {s with won := insert (s.ballot c) s.won} := by
  refine {h with elected := ?_, acknowledged := ?_, custody := ?_}
  · intro b hw
    rcases Finset.mem_insert.1 hw with rfl | hold
    · exact ⟨by rw [hc],hm⟩
    · exact h.elected b hold
  · intro a ha
    obtain ⟨hw,hr⟩ := h.acknowledged a ha
    exact ⟨Finset.mem_insert_of_mem hw,hr⟩
  · intro a ha p hp
    rcases hp with hp | ⟨b,hlt,hw,rfl⟩
    · exact h.custody a ha p (.inl hp)
    rcases Finset.mem_insert.1 hw with rfl | hold
    · obtain ⟨d,hd,hpr⟩ := h.candidate_holds ha hc hm hlt
      rw [hc]
      refine ⟨hlt.le,fun d' hd' => ?_⟩
      cases hd.symm.trans hd'
      exact hpr
    · exact h.custody a ha _ (.inr ⟨b,hlt,hold,rfl⟩)

/-- A leader and half of its peers are half of the voters. -/
theorem card_le_holders {leader : NodeId} {standbys : Finset NodeId} (hl : leader ∈ voters)
    (hs : standbys ⊆ voters.erase leader)
    (hc : standbys.card = requiredSyncStandbys (voters.card-1)) :
    voters.card ≤ 2*(voters ∩ insert leader standbys).card := by
  have hn : leader ∉ standbys := fun hm => (Finset.mem_erase.1 (hs hm)).1 rfl
  have hsu : insert leader standbys ⊆ voters :=
    Finset.insert_subset hl (hs.trans (Finset.erase_subset _ _))
  rw [Finset.inter_eq_right.2 hsu,Finset.card_insert_of_notMem hn,hc,requiredSyncStandbys]
  omega

/-- No later ballot has reached a node that acknowledges, so no later leader exists yet. -/
theorem inv_ack (h : Inv β voters s) {a : Ack B} (hwo : a.ballot ∈ s.won)
    (hl : β.owner a.ballot ∈ a.holders) (hw : a.write ∈ a.history)
    (hc : voters.card ≤ 2*(voters ∩ a.holders).card) (hb : ∀ p ∈ a.holders, s.ballot p = a.ballot)
    (hh : ∀ p ∈ a.holders, ∀ d, s.pg p = some d → a.history <+: d.wal.entries) :
    Inv β voters {s with acked := a::s.acked} := by
  have he : ∀ b p, (b,p) ∈ s.grants → p ∈ a.holders → ¬ a.ballot < b := by
    intro b p hg hp hlt
    rw [← hb p hp] at hlt
    exact (hlt.trans_le (h.voted b p hg).1).false
  refine {h with acknowledged := ?_, custody := ?_, granted := ?_}
  · intro x hx
    rcases mem_cons.1 hx with rfl | hx
    · exact ⟨hwo,hl,hw,hc⟩
    · exact h.acknowledged x hx
  · intro x hx p hp
    rcases mem_cons.1 hx with rfl | hx
    · rcases hp with hp | ⟨b,hlt,hla,rfl⟩
      · exact ⟨(hb p hp).ge,hh p hp⟩
      · obtain ⟨v,hv,hg⟩ := exists_holder hc (h.elected b hla).2
        exact absurd hlt (he b v (mem_grantsOf.1 hg) hv)
    · exact h.custody x hx p hp
  · intro x hx b p hg hlt hp
    rcases mem_cons.1 hx with rfl | hx
    · exact absurd hlt (he b p hg hp)
    · exact h.granted x hx b p hg hlt hp

theorem inv_lastLog (h : Inv β voters s) (lastLog : NodeId → Option (B × ℕ)) :
    Inv β voters {s with lastLog := lastLog} := {h with}

theorem inv_step [DecidableLE B] [DecidableLT B] {e : Event B} {s' : Cluster B} (h : Inv β voters s)
    (hg : Steady β s e) (hs : step β voters s e = some s') : Inv β voters s' := by
  cases e <;> simp only [step,Option.bind_eq_some_iff,Option.map_eq_some_iff,
    Option.ite_none_right_eq_some,Option.some.injEq] at hs
  case server =>
    obtain ⟨d,hd,d',hst,rfl⟩ := hs
    exact inv_grow h hd (stepServer_grows hst)
  case follow =>
    obtain ⟨source,hq,⟨hw,hne,_,hsh⟩,rfl⟩ := hs
    exact inv_follow h hq hw hne hsh
  case wipe =>
    subst hs
    exact inv_setPg h (fun _ _ _ _ hd => by cases hd) fun ho => absurd ho hg.2
  case stand =>
    obtain ⟨⟨_,hlt⟩,rfl⟩ := hs
    exact inv_stand h hlt hg
  case request =>
    obtain ⟨hc,rfl⟩ := hs
    exact inv_request h hc
  case check =>
    obtain ⟨f,hf,⟨hne,hm,hga⟩,rfl⟩ := hs
    rw [voteLsnThresholdBytes,if_neg hm] at hga
    exact inv_check h (mem_of_getElem? hf) hne hga
  case grant =>
    obtain ⟨g,hi,⟨_,_,hle⟩,rfl⟩ := hs
    exact inv_grant h (mem_of_getElem? hi) hle (hg g hi)
  case win =>
    obtain ⟨⟨hc,hma⟩,rfl⟩ := hs
    exact inv_win h hc hma
  case learn =>
    obtain ⟨hlt,rfl⟩ := hs
    exact inv_learn h hlt
  case propose | replicate =>
    obtain ⟨_,rfl⟩ := hs
    exact inv_lastLog h _
  case ack b n standbys =>
    obtain ⟨d,hd,write,hwr,⟨hw,_,hl,hsu,hc,hh⟩,rfl⟩ := hs
    refine inv_ack h hw (Finset.mem_insert_self _ _) (List.mem_of_getLast? hwr)
      (card_le_holders hl hsu hc) hg ?_
    intro p hp e he
    rcases Finset.mem_insert.1 hp with rfl | hp
    · cases hd.symm.trans he
      exact take_prefix n _
    · exact prefix_of_holds (hh p hp) he

end Proof

/-- openraft's default: votes are ordered by their term and then by their node. -/
def termThenNode : Ballots (ℕ ×ₗ NodeId) where
  term b := (ofLex b).1
  owner b := (ofLex b).2
  lt_of_term _ _ h := Prod.Lex.lt_iff.2 (.inl h)

def campaign (c v : NodeId) (term : ℕ) : List (Event (ℕ ×ₗ NodeId)) :=
  [.stand (toLex (term,c)),.request c,.check v 0 (some true),.grant 0]

def lead (c v : NodeId) (term : ℕ) : List (Event (ℕ ×ₗ NodeId)) :=
  campaign c v term++[.win c,.server c .promote]

/-- Node 1 leads and acknowledges a write that node 2 holds. -/
def acknowledged : List (Event (ℕ ×ₗ NodeId)) :=
  lead 1 2 1++[.server 1 (.append ⟨10,1⟩),.server 2 (.stream 1 1),.ack (toLex (1,1)) 1 {2}]

/-- Node 3 has the write too, and node 2 elects it in the same term; the node it then elects in the
next has the write again. -/
def failover : List (Event (ℕ ×ₗ NodeId)) :=
  acknowledged++([.server 3 (.stream 1 1),.server 1 .crash] : List (Event (ℕ ×ₗ NodeId)))++
    lead 3 2 1++campaign 3 2 2++([.win 3] : List (Event (ℕ ×ₗ NodeId)))

/-- The candidate can win now without a write acknowledged in an earlier term. -/
def WinsWithout (voters : Finset NodeId) (s : Cluster (ℕ ×ₗ NodeId)) (c : NodeId) : Prop :=
  (step termThenNode voters s (.win c)).isSome ∧
    ∃ a ∈ s.acked, termThenNode.term a.ballot < termThenNode.term (s.ballot c) ∧
      ∀ d ∈ s.pg c, a.write ∉ d.wal.entries

instance decidableWinsWithout (voters : Finset NodeId) (s : Cluster (ℕ ×ₗ NodeId)) (c : NodeId) :
    Decidable (WinsWithout voters s c) :=
  inferInstanceAs (Decidable (_ ∧ _))

end Election
end PgBattery
