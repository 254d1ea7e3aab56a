import PgBattery.Analysis

/-! The gateway's look for a `replication` parameter in a startup packet, against the parser of the server
behind it. The gateway cuts the body at every NUL and takes the pieces in pairs; the server walks it by
offsets, over a buffer with one zero byte appended. -/
namespace PgBattery
namespace WalsenderRefusal
open Postcard Analysis List

def scanPairs : List Bytes → Bool
  | name::value::rest =>
    if name = [] then false
    else if eqIgnoreAsciiCase name (ascii "replication") ∧ value ≠ [] then true
    else scanPairs rest
  | _ => false

def startupHasReplicationOption (buf : Bytes) : Bool :=
  if 8 ≤ buf.length then scanPairs ((buf.drop 8).splitOnP (· == 0)) else false

/-- A string of the packet: up to a NUL, at the latest the one behind the packet. -/
def cString (bytes : Bytes) : Bytes := bytes.takeWhile (· ≠ 0)

/-- The server's loop over names and values, from an offset on: it stops at an empty name and where no
value starts within the packet. With the parameters it returns what was not read. -/
def startupParameters (body : Bytes) : List (Bytes × Bytes) × Bytes :=
  let name := cString body
  if hmore : name ≠ [] ∧ name.length+1 < body.length then
    let value := cString (body.drop (name.length+1))
    let later := startupParameters ((body.drop (name.length+1)).drop (value.length+1))
    ((name,value)::later.1,later.2)
  else ([],body)
termination_by body.length
decreasing_by
  have := hmore.2
  simp only [List.length_drop]
  omega

/-- `parse_bool`: a prefix of one of the words in any case, but not `o` alone. -/
def parseBool (value : Bytes) : Option Bool :=
  let word := value.map toAsciiLowercase
  if word = [] then none
  else if word.isPrefixOf (ascii "true") ∨ word.isPrefixOf (ascii "yes") ∨ word = ascii "on" ∨
    word = ascii "1" then some true
  else if word.isPrefixOf (ascii "false") ∨ word.isPrefixOf (ascii "no") ∨ word = ascii "of" ∨
    word = ascii "off" ∨ word = ascii "0" then some false
  else none

/-- Whether a value of `replication` asks for a walsender; the server refuses it at `none`. -/
def walsender (value : Bytes) : Option Bool :=
  if value = ascii "database" then some true else parseBool value

/-- The last value of the parameter decides, and each of them has to be valid. -/
def replicationMode (parameters : List (Bytes × Bytes)) : Option Bool :=
  parameters.foldlM (fun mode p => if p.1 = ascii "replication" then walsender p.2 else some mode) false

/-- The server accepts the packet, which ends in one byte behind the parameters, as a replication
session. -/
def opensReplication (body : Bytes) : Bool :=
  (startupParameters body).2.length = 1 ∧ replicationMode (startupParameters body).1 = some true

section Cut
variable {name rest : Bytes}

def ZeroFree (bytes : Bytes) : Prop := ∀ b ∈ bytes, b ≠ 0

theorem exists_cut (body : Bytes) :
    ∃ name, ZeroFree name ∧ (body = name ∨ ∃ rest, body = name++0::rest) := by
  induction body with
  | nil => exact ⟨[],by simp [ZeroFree],.inl rfl⟩
  | cons b body ih =>
    by_cases hb : b = 0
    · subst hb
      exact ⟨[],by simp [ZeroFree],.inr ⟨body,rfl⟩⟩
    · obtain ⟨name,hn,hbo⟩ := ih
      refine ⟨b::name,forall_mem_cons.2 ⟨hb,hn⟩,?_⟩
      rcases hbo with rfl | ⟨rest,rfl⟩
      · exact .inl rfl
      · exact .inr ⟨rest,rfl⟩

theorem cString_all (h : ZeroFree name) : cString name = name :=
  List.takeWhile_eq_self_iff.2 fun b hb => decide_eq_true (h b hb)

theorem cString_cut (h : ZeroFree name) (rest : Bytes) : cString (name++0::rest) = name := by
  rw [cString,takeWhile_append_of_pos fun b hb => decide_eq_true (h b hb)]
  simp

theorem splitOnP_all (h : ZeroFree name) : name.splitOnP (· == 0) = [name] :=
  splitOnP_eq_singleton fun b hb => by simpa using h b hb

theorem splitOnP_cut (h : ZeroFree name) (rest : Bytes) :
    (name++0::rest).splitOnP (· == 0) = name::rest.splitOnP (· == 0) :=
  splitOnP_append_cons_of_forall_mem (fun b hb => by simpa using h b hb) 0 rfl rest

theorem startupParameters_stop {body : Bytes} (h : cString body = [] ∨ body.length ≤ (cString body).length+1) :
    startupParameters body = ([],body) := by
  rw [startupParameters]
  refine dif_neg fun hm => ?_
  rcases h with h | h
  · exact hm.1 h
  · omega

theorem startupParameters_cut (h : ZeroFree name) (hne : name ≠ []) (hr : rest ≠ []) :
    startupParameters (name++0::rest) =
      ((name,cString rest)::(startupParameters (rest.drop ((cString rest).length+1))).1,
        (startupParameters (rest.drop ((cString rest).length+1))).2) := by
  have hm : cString (name++0::rest) ≠ [] ∧
      (cString (name++0::rest)).length+1 < (name++0::rest).length := by
    rw [cString_cut h]
    refine ⟨hne,?_⟩
    have := List.length_pos_iff.2 hr
    simp only [length_append,length_cons]
    omega
  have hd : (name++0::rest).drop (name.length+1) = rest := by simp
  rw [startupParameters,dif_pos hm,cString_cut h,hd]

end Cut

/-- What the gateway looks for among the parameters the server reads. -/
def asks (p : Bytes × Bytes) : Bool := eqIgnoreAsciiCase p.1 (ascii "replication") && p.2 ≠ []

theorem scanPairs_nil (pieces : List Bytes) : scanPairs ([]::pieces) = false := by
  cases pieces <;> rfl

theorem scanPairs_cons {name : Bytes} (hne : name ≠ []) (value : Bytes) (pieces : List Bytes) :
    scanPairs (name::value::pieces) = (asks (name,value) || scanPairs pieces) := by
  rw [scanPairs,if_neg hne,asks]
  by_cases hn : eqIgnoreAsciiCase name (ascii "replication") = true <;> by_cases hv : value = [] <;>
    simp [hn,hv]

theorem scanPairs_eq (body : Bytes) :
    scanPairs (body.splitOnP (· == 0)) = (startupParameters body).1.any asks := by
  induction hl : body.length using Nat.strong_induction_on generalizing body with
  | h n ih =>
    obtain ⟨name,hn,rfl | ⟨rest,rfl⟩⟩ := exists_cut body
    · rw [splitOnP_all hn,startupParameters_stop (.inr (by rw [cString_all hn]; omega))]
      rfl
    · rw [splitOnP_cut hn]
      by_cases hne : name = []
      · subst hne
        rw [scanPairs_nil,startupParameters_stop (.inl (cString_cut hn rest))]
        rfl
      by_cases hr : rest = []
      · subst hr
        rw [startupParameters_stop (.inr (by rw [cString_cut hn]; simp)),splitOnP_nil,
          scanPairs_cons hne]
        simp [asks,scanPairs]
      rw [startupParameters_cut hn hne hr,any_cons]
      obtain ⟨value,hv,rfl | ⟨later,rfl⟩⟩ := exists_cut rest
      · rw [splitOnP_all hv,cString_all hv,scanPairs_cons hne,drop_of_length_le (by omega),
          startupParameters_stop (.inl rfl)]
        rfl
      · have hd : (value++0::later).drop (value.length+1) = later := by simp
        have hs : later.length < n := by
          subst hl
          simp only [length_append,length_cons]
          omega
        rw [splitOnP_cut hv,cString_cut hv,scanPairs_cons hne,hd,ih _ hs later rfl]

theorem exists_of_replicationMode {parameters : List (Bytes × Bytes)}
    (h : replicationMode parameters = some true) :
    ∃ p ∈ parameters, p.1 = ascii "replication" ∧ walsender p.2 = some true := by
  have hf : ∀ mode, parameters.foldlM (fun mode p =>
      if p.1 = ascii "replication" then walsender p.2 else some mode) mode = some true →
      mode ∨ ∃ p ∈ parameters, p.1 = ascii "replication" ∧ walsender p.2 = some true := by
    clear h
    induction parameters with
    | nil =>
      intro mode hm
      exact .inl (Option.some.inj hm)
    | cons p parameters ih =>
      intro mode hm
      rw [foldlM_cons] at hm
      obtain ⟨next,hn,hr⟩ := Option.bind_eq_some_iff.1 hm
      rcases ih next hr with rfl | ⟨q,hq,hs⟩
      · by_cases hp : p.1 = ascii "replication"
        · rw [if_pos hp] at hn
          exact .inr ⟨p,mem_cons_self,hp,hn⟩
        · rw [if_neg hp] at hn
          exact .inl (Option.some.inj hn)
      · exact .inr ⟨q,mem_cons_of_mem p hq,hs⟩
  rcases hf false h with hno | hs
  · cases hno
  · exact hs

theorem walsender_nil : walsender [] = none := by decide

theorem asks_of_walsender {p : Bytes × Bytes} (hn : p.1 = ascii "replication")
    (hv : walsender p.2 = some true) : asks p := by
  have hs : eqIgnoreAsciiCase (ascii "replication") (ascii "replication") := by decide
  have hne : p.2 ≠ [] := by
    intro hni
    rw [hni,walsender_nil] at hv
    cases hv
  rw [asks,hn,hs,decide_eq_true hne]
  rfl

theorem startupHasReplicationOption_eq (buf : Bytes) :
    startupHasReplicationOption buf = (startupParameters (buf.drop 8)).1.any asks := by
  rw [startupHasReplicationOption]
  split
  · exact scanPairs_eq (buf.drop 8)
  · next hs =>
    rw [drop_of_length_le (by omega),startupParameters_stop (.inl rfl)]
    rfl

/-- Every packet that would open a replication session is refused, and none without the parameter. -/
theorem walsender_refused (buf : Bytes) :
    (opensReplication (buf.drop 8) → startupHasReplicationOption buf = true) ∧
    ((∀ p ∈ (startupParameters (buf.drop 8)).1, ¬eqIgnoreAsciiCase p.1 (ascii "replication") = true) →
      startupHasReplicationOption buf = false) := by
  rw [startupHasReplicationOption_eq]
  constructor
  · intro ho
    obtain ⟨-,hm⟩ := of_decide_eq_true ho
    obtain ⟨p,hp,hn,hv⟩ := exists_of_replicationMode hm
    exact any_eq_true.2 ⟨p,hp,asks_of_walsender hn hv⟩
  · intro hno
    refine any_eq_false.2 fun p hp ha => ?_
    exact hno p hp (Bool.and_eq_true_iff.1 ha).1

/-- An empty value, and the parameter again: the last one counts for the server. -/
def packet : Bytes :=
  [0,0,0,56,0,3,0,0]++ascii "user\x00a\x00options\x00\x00replication\x00off\x00replication\x00On\x00\x00"

theorem walsender_refused_packet : opensReplication (packet.drop 8) = true ∧
    startupHasReplicationOption packet = true ∧
    startupHasReplicationOption ([0,0,0,16,0,3,0,0]++ascii "user\x00a\x00\x00") = false := by
  have ho : opensReplication (packet.drop 8) = true := by decide +kernel
  exact ⟨ho,(walsender_refused packet).1 ho,(walsender_refused _).2 (by decide +kernel)⟩

end WalsenderRefusal
end PgBattery
