import PgBattery.PostcardTidy
import PgBattery.Layout

/-! Which byte strings the snapshot decoder reads exactly. A map or a set may be listed in any
order, so a state has many encodings; the two layouts are taken apart into the lists they store. -/
namespace PgBattery
namespace Layout
open StateMachine LogApply Postcard List

/-- The schema-0 fields as they are stored: maps and sets in the order they were listed. -/
abbrev ListedV0 :=
  List (NodeId × NodeInfo) × List NodeId × List NodeId × List (NodeId × U64 × U64) × U64 × Option Bool

/-- The fields the current layout adds. -/
abbrev Trailing :=
  CutoverAuthorityState × PgUpgradeState × Option U64 × U32 × List NodeId × Option U64 × Option U64

abbrev Listed := ListedV0 × Trailing

def listedV0 : Codec ListedV0 :=
  pair (seq (pair u64 nodeInfo)) (pair (seq u64) (pair (seq u64) (pair (seq (pair u64 (pair u64 u64)))
    (pair u64 (option bool)))))

def trailing : Codec Trailing :=
  pair cutoverAuthorityState (pair pgUpgradeState (pair (option u64) (pair u32 (pair (seq u64)
    (pair (option u64) (option u64))))))

def listed : Codec Listed := pair listedV0 trailing

def stateV0 : ListedV0 → ClusterStateV0
  | (nodes,voters,learners,lsns,max,active) =>
    ⟨.ofList nodes,voters.toFinset,learners.toFinset,.ofList lsns,max,active⟩

def withTrailing (v0 : ClusterStateV0) : Trailing → ClusterState
  | (cutover,upgrade,applied,level,intent,lineage,term) =>
    ⟨v0.nodes,v0.voterIds,v0.learnerIds,v0.nodeLsns,v0.maxClusterLsn,v0.syncReplicationActive,
      cutover,upgrade,applied,level,intent,lineage,term⟩

def state (l : Listed) : ClusterState := withTrailing (stateV0 l.1) l.2

def Distinct : ListedV0 → Prop
  | (nodes,voters,learners,lsns,_,_) =>
    (nodes.map Prod.fst).Nodup ∧ voters.Nodup ∧ learners.Nodup ∧ (lsns.map Prod.fst).Nodup

instance instDecidableDistinct (l : ListedV0) : Decidable (Distinct l) := by
  unfold Distinct
  infer_instance

theorem clusterStateV0_reads : clusterStateV0.Reads listedV0 stateV0 :=
  ((reads_imap _ _).pair ((reads_imap _ _).pair ((reads_imap _ _).pair ((reads_imap _ _).pair
    (reads_self _))))).imap fun _ => rfl

theorem clusterState_reads : clusterState.Reads listed state :=
  (clusterStateV0_reads.pair (reads_self trailing)).imap fun _ => rfl

/-- The bytes are an encoding of the schema-0 state, its maps and sets in some order. -/
def WrittenV0 (v0 : ClusterStateV0) (b : Bytes) : Prop :=
  ∃ l, Distinct l ∧ stateV0 l = v0 ∧ listedV0.encode l = .ok b

def Written (s : ClusterState) (b : Bytes) : Prop :=
  ∃ l, Distinct l.1 ∧ state l = s ∧ listed.encode l = .ok b

section Scan

def tidySocketAddr : Tidy socketAddr :=
  .enum [⟨_,.pair (.array 4) .u16⟩,⟨_,.pair (.array 16) .u16⟩] (by decide) fun
    | 0, _, _, rfl => rfl
    | 1, _, _, rfl => rfl

def tidyNodeRole : Tidy nodeRole :=
  .enum [⟨.constant NodeRole.leader,.unit⟩,⟨.constant .follower,.unit⟩] (by decide) fun
    | 0, _, _, rfl => rfl
    | 1, _, _, rfl => rfl

def tidyNodeInfo : Tidy nodeInfo :=
  .imap (.pair .u64 (.pair tidySocketAddr (.pair tidySocketAddr (.pair tidySocketAddr
    (.pair tidySocketAddr (.pair tidyNodeRole .u64)))))) _ fun _ => rfl

def tidyCutoverPhase : Tidy cutoverPhase :=
  .enum [⟨.constant CutoverPhase.idle,.unit⟩,⟨.constant .armed,.unit⟩,⟨.constant .sealing,.unit⟩,
    ⟨.constant .sealed,.unit⟩,⟨.constant .draining,.unit⟩,⟨.constant .transferred,.unit⟩,
    ⟨.constant .aborted,.unit⟩] (by decide) fun
    | 0, _, _, rfl => rfl
    | 1, _, _, rfl => rfl
    | 2, _, _, rfl => rfl
    | 3, _, _, rfl => rfl
    | 4, _, _, rfl => rfl
    | 5, _, _, rfl => rfl
    | 6, _, _, rfl => rfl

def tidyCutover : Tidy cutoverAuthorityState :=
  .imap (.pair .u64 (.pair (.option .string) (.pair tidyCutoverPhase (.pair (.option .u64)
    (.pair (.option .string) (.pair (.option .string) (.pair .bool (.pair (.seq .string)
      (.option .string))))))))) _ fun _ => rfl

def tidyPgUpgrade : Tidy pgUpgradeState := .imap (.pair .bool (.seq .u64)) _ fun _ => rfl

def tidyListedV0 : Tidy listedV0 :=
  .pair (.seq (.pair .u64 tidyNodeInfo)) (.pair (.seq .u64) (.pair (.seq .u64)
    (.pair (.seq (.pair .u64 (.pair .u64 .u64))) (.pair .u64 (.option .bool)))))

def tidyTrailing : Tidy trailing :=
  .pair tidyCutover (.pair tidyPgUpgrade (.pair (.option .u64) (.pair .u32 (.pair (.seq .u64)
    (.pair (.option .u64) (.option .u64))))))

def tidyListed : Tidy listed := .pair tidyListedV0 tidyTrailing

/-- The layout reads the bytes to their end, every number in them is as short as it can be, and no map
or set lists a key twice. -/
def readsAll {α : Type} {c : Codec α} (tidy : Tidy c) (fields : α → ListedV0) (b : Bytes) : Bool :=
  tidy.scan b && match c.decode b with
    | .ok (l,[]) => Distinct (fields l)
    | _ => false

def readsTidily (b : Bytes) : Bool := readsAll tidyListed Prod.fst b

def readsTidilyV0 (b : Bytes) : Bool := readsAll tidyListedV0 id b

theorem readsAll_iff {α : Type} {c : Codec α} (tidy : Tidy c) (fields : α → ListedV0) (b : Bytes) :
    readsAll tidy fields b ↔ ∃ l, Distinct (fields l) ∧ c.encode l = .ok b := by
  rw [readsAll,Bool.and_eq_true]
  constructor
  · rintro ⟨hs,hd⟩
    split at hd
    · rename_i l hl
      obtain ⟨w,hw,he⟩ := (tidy.scan_iff hl).1 hs
      rw [append_nil] at he
      exact ⟨l,of_decide_eq_true hd,he ▸ hw⟩
    · cases hd
  · rintro ⟨l,hd,he⟩
    have hl := Codec.decode_whole he
    rw [tidy.scan_iff hl,hl]
    exact ⟨⟨b,he,(append_nil b).symm⟩,decide_eq_true hd⟩

end Scan

section Decode
variable {b : Bytes} {s : ClusterState}

theorem listed_decode_of_V0 {l : ListedV0} (h : listedV0.encode l = .ok b) :
    listed.decode b = .error .deserializeUnexpectedEnd := by
  simp only [listed,pair,Codec.decode_whole h]
  rfl

theorem decodeSnapshot_current {l : Listed} {rest : Bytes} (h : listed.decode b = .ok (l,rest)) :
    decodeSnapshot b = .ok (state l) := by
  have hf : clusterState.fromBytes b = .ok (state l) := by
    simp only [Codec.fromBytes,clusterState_reads b,h,Except.map]
  simp only [decodeSnapshot,hf]

theorem decodeSnapshot_fallback {e : Error} (h : listed.decode b = .error e) :
    decodeSnapshot b = match clusterStateV0.fromBytes b with
      | .ok v0 => .ok v0.upgrade
      | .error _ => .error e := by
  have hf : clusterState.fromBytes b = .error e := by
    simp only [Codec.fromBytes,clusterState_reads b,h,Except.map]
  cases hv : clusterStateV0.fromBytes b with
  | ok v0 => simp [decodeSnapshot,hf,hv]
  | error _ => simp [decodeSnapshot,hf,hv]

/-- Bytes the schema-0 layout cannot read are refused: the current layout starts with it. -/
theorem decodeSnapshot_unreadable (h : (clusterStateV0.fromBytes b).isOk = false) :
    ∃ e, decodeSnapshot b = .error e := by
  cases hv : listedV0.decode b with
  | ok r => simp [Codec.fromBytes,clusterStateV0_reads b,hv,Except.map,Except.isOk,Except.toBool] at h
  | error e =>
    have hl : listed.decode b = .error e := by
      simp only [listed,pair,hv]
      rfl
    refine ⟨e,?_⟩
    rw [decodeSnapshot_fallback hl,Codec.fromBytes,clusterStateV0_reads b,hv]
    rfl

end Decode

/-- What is read is what the bytes write, in one layout or the other, and bytes that fall short of
an encoding of the current layout, or run past one, are refused unless they are an encoding of the
schema-0 layout. -/
def Exact (b : Bytes) : Prop :=
  (∀ s, decodeSnapshot b = .ok s → Written s b ∨ ∃ v0, v0.upgrade = s ∧ WrittenV0 v0 b) ∧
    ∀ s w, Written s w → b ≠ w → b <+: w ∨ w <+: b →
      (∃ v0, WrittenV0 v0 b) ∨ ∃ e, decodeSnapshot b = .error e

theorem exact_of_readsTidily {b : Bytes} (h : readsTidily b) : Exact b := by
  obtain ⟨l,hd,he⟩ := (readsAll_iff ..).1 h
  refine ⟨?_,?_⟩
  · intro s hs
    rw [decodeSnapshot_current (Codec.decode_whole he)] at hs
    cases hs
    exact .inl ⟨l,hd,rfl,he⟩
  · rintro s w ⟨l',-,-,he'⟩ hne (hp | hp)
    · exact absurd (Codec.encode_unextended he he' hp) hne
    · exact absurd (Codec.encode_unextended he' he hp).symm hne

theorem exact_of_readsTidilyV0 {b : Bytes} (h : readsTidilyV0 b) : Exact b := by
  obtain ⟨l,hd,he⟩ := (readsAll_iff ..).1 h
  have hw : WrittenV0 (stateV0 l) b := ⟨l,hd,rfl,he⟩
  refine ⟨?_,fun _ _ _ _ _ => .inl ⟨_,hw⟩⟩
  intro s hs
  rw [decodeSnapshot_fallback (listed_decode_of_V0 he),Codec.fromBytes,clusterStateV0_reads b,
    Codec.decode_whole he] at hs
  cases hs
  exact .inr ⟨_,rfl,hw⟩

theorem readsTidily_of_exact {b : Bytes} (hv : (clusterStateV0.fromBytes b).isOk)
    (h : Exact b) : readsTidily b ∨ readsTidilyV0 b := by
  have hok : ∃ s, decodeSnapshot b = .ok s := by
    cases hl : listed.decode b with
    | ok r => exact ⟨_,decodeSnapshot_current hl⟩
    | error e =>
      cases hf : clusterStateV0.fromBytes b with
      | error e' => simp [hf,Except.isOk,Except.toBool] at hv
      | ok v0 => exact ⟨v0.upgrade,by rw [decodeSnapshot_fallback hl,hf]⟩
  obtain ⟨s,hs⟩ := hok
  obtain ⟨l,hd,-,he⟩ | ⟨v0,-,l,hd,-,he⟩ := h.1 s hs
  · exact .inl ((readsAll_iff ..).2 ⟨l,hd,he⟩)
  · exact .inr ((readsAll_iff ..).2 ⟨l,hd,he⟩)

theorem decode_exact_iff (b : Bytes) :
    Exact b ↔ (clusterStateV0.fromBytes b).isOk = false ∨ readsTidily b = true ∨
      readsTidilyV0 b = true := by
  constructor
  · intro h
    by_cases hv : (clusterStateV0.fromBytes b).isOk
    · exact .inr (readsTidily_of_exact hv h)
    · exact .inl (Bool.eq_false_of_not_eq_true hv)
  · rintro (hv | ht | ht)
    · obtain ⟨e,he⟩ := decodeSnapshot_unreadable hv
      refine ⟨fun s hs => ?_,fun s w hw hne hp => .inr ⟨e,he⟩⟩
      rw [he] at hs
      cases hs
    · exact exact_of_readsTidily ht
    · exact exact_of_readsTidilyV0 ht

def sampleStored : Bytes :=
  [0,1,1,0,0,0,0]++[0,0,0,0,0,0,0,0,0]++[0,0,1,9,1,0,1,7,1,3]

/-- Cut among the cutover fields; followed by one more byte; the voter's number in two groups; the
voter listed twice. -/
def sampleMisread : List Bytes :=
  [sampleStored.take 12,sampleStored++[0],
    [0,1,129,0,0,0,0,0]++[0,0,0,0,0,0,0,0,0]++[0,0,1,9,1,0,1,7,1,3],
    [0,2,1,1,0,0,0,0]++[0,0,0,0,0,0,0,0,0]++[0,0,1,9,1,0,1,7,1,3]]

theorem misread_not_exact :
    readsTidily sampleStored = true ∧
      (decodeSnapshot sampleStored).toOption.map (fun s => (s.lineage,s.primaryTerm)) =
        some (some 7,some 3) ∧
      (decodeSnapshot (sampleStored.take 12)).toOption.map (fun s => (s.lineage,s.primaryTerm)) =
        some (none,none) ∧
      ∀ b ∈ sampleMisread, ¬Exact b := by
  refine ⟨by decide +kernel,by decide +kernel,by decide +kernel,fun b hb he => ?_⟩
  have ha : (sampleMisread.all fun b =>
      (clusterStateV0.fromBytes b).isOk && !(readsTidily b || readsTidilyV0 b)) := by
    decide +kernel
  have hm := all_eq_true.1 ha b hb
  rw [Bool.and_eq_true,Bool.not_eq_true',Bool.or_eq_false_iff] at hm
  rcases readsTidily_of_exact hm.1 he with ht | ht
  · exact absurd ht (by simp [hm.2.1])
  · exact absurd ht (by simp [hm.2.2])

end Layout
end PgBattery
