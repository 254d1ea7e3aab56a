import PgBattery.Commands
import PgBattery.ReplicatedLog

/-! Joins, finalize-upgrade calls and proposals under changing leaders: whether every member decodes
what is committed. Checks read a node's applied state or its log; what they allow is written later, and
the only exclusion between them is a lock of the node's own. -/
namespace PgBattery
namespace FeatureLevel
open StateMachine ReplicatedLog TransitionSystem List

inductive ProposeError
  | notAdmitted (required committed : U32)
  | raisesLevel
  | membersNotReady (silent : List NodeId)
  deriving DecidableEq

def admitCommand (state : ClusterState) (command : ClusterCommand) : Except ProposeError Unit :=
  match command with
  | .setFeatureLevel _ => .error .raisesLevel
  | command =>
    if state.featureLevel < command.requiredFeatureLevel then
      .error (.notAdmitted command.requiredFeatureLevel state.featureLevel)
    else .ok ()

def finalizeTarget (committed : U32) (members : List (NodeId × Option U32)) :
    Except ProposeError (Option U32) :=
  let silent := (members.filter fun m => m.2.isNone).map Prod.fst
  if silent ≠ [] then .error (.membersNotReady silent)
  else .ok ((members.filterMap Prod.snd).min?.filter (committed < ·))

/-- A joiner below the committed level is refused. -/
def featureLevelRefusal (featureLevel committed : U32) : Bool := featureLevel < committed

inductive Entry
  | command (cmd : ClusterCommand)
  | membership (ids : List NodeId)
  deriving DecidableEq

/-- A write given to a node's Raft core, with what its check has seen: the level a joiner was
validated against, the members that were surveyed. -/
inductive Request
  | command (cmd : ClusterCommand)
  | addLearner (id : NodeId) (validated : U32)
  | raise (level : U32) (surveyed : List NodeId)

/-- The handler that holds a node's membership lock, at the await it has come to. -/
inductive Handler
  | idle
  /-- The joiner is validated and its node info proposed. -/
  | naming (info : NodeInfo) (validated : U32)
  /-- The learner is added, again while a membership change is in progress. -/
  | adding (id : NodeId) (validated : U32)
  | surveying (members : List NodeId)
  /-- The raise is written. -/
  | raising

structure World where
  replicas : Replicas NodeId Entry
  queue : NodeId → List Request
  handler : NodeId → Handler

inductive Event
  | raft (change : Change NodeId)
  | propose (n : NodeId) (cmd : ClusterCommand)
  | join (n : NodeId) (info : NodeInfo)
  | named (n : NodeId)
  | addLearner (n : NodeId)
  | finalize (n : NodeId)
  | surveyed (n : NodeId) (answered : List NodeId)
  /-- The handler returns, or its future is dropped. -/
  | release (n : NodeId)
  /-- The Raft core takes up the next write; `refuse` where it does not lead or another membership
  change is in progress. -/
  | append (n : NodeId)
  | refuse (n : NodeId)

section Log

def applyLogged (s : ClusterState) : Entry → ClusterState
  | .command cmd => (s.apply cmd).1
  | .membership _ => s

def clusterState (log : List Entry) : ClusterState := log.foldl applyLogged {}

def raises : Entry → U32
  | .command (.setFeatureLevel level) => level
  | .command _ | .membership _ => 0

def level (log : List Entry) : U32 := log.foldl (fun level e => max level (raises e)) 0

/-- The membership in force with a log: the last one in it. -/
def membersOf (initial : List NodeId) (log : List Entry) : List NodeId :=
  log.foldl (fun ids e => match e with
    | .command _ => ids
    | .membership ids => ids) initial

end Log

/-- The levels each node's binary decodes, and the members to begin with. -/
structure Cluster where
  decodes : NodeId → U32
  initial : List NodeId

def World.state (w : World) (n : NodeId) : ClusterState := clusterState (w.replicas.view n)

def World.push (w : World) (n : NodeId) (r : Request) : World :=
  {w with queue := Function.update w.queue n (w.queue n++[r])}

def World.enter (w : World) (n : NodeId) (h : Handler) : World :=
  {w with handler := Function.update w.handler n h}

def entryOf (initial : List NodeId) (log : List Entry) : Request → Entry
  | .command cmd => .command cmd
  | .addLearner id _ => .membership ((membersOf initial log).insert id)
  | .raise level _ => .command (.setFeatureLevel level)

/-- What each member reports: a node knows its own level, and a silent member reports none. -/
def survey (decodes : NodeId → U32) (n : NodeId) (members answered : List NodeId) :
    List (NodeId × Option U32) :=
  members.map fun id => (id,if id = n ∨ id ∈ answered then some (decodes id) else none)

def step (c : Cluster) (w : World) : Event → Option World
  | .raft change => (w.replicas.change change).map fun replicas => {w with replicas := replicas}
  | .propose n cmd => match admitCommand (w.state n) cmd with
    | .ok () => some (w.push n (.command cmd))
    | .error _ => none
  | .join n info => match w.handler n with
    | .idle =>
      let committed := (w.state n).featureLevel
      if w.replicas.leads n ∧ ¬featureLevelRefusal (c.decodes info.id) committed ∧
          info.id ∉ membersOf c.initial (w.replicas.log n) then
        some ((w.enter n (.naming info committed)).push n (.command (.addNode info)))
      else none
    | .naming .. | .adding .. | .surveying _ | .raising => none
  | .named n => match w.handler n with
    | .naming info validated =>
      if .command (.addNode info) ∈ w.replicas.view n then some (w.enter n (.adding info.id validated))
      else none
    | .idle | .adding .. | .surveying _ | .raising => none
  | .addLearner n => match w.handler n with
    | .adding id validated => some (w.push n (.addLearner id validated))
    | .idle | .naming .. | .surveying _ | .raising => none
  | .finalize n => match w.handler n with
    | .idle =>
      if w.replicas.leads n then
        some (w.enter n (.surveying (membersOf c.initial (w.replicas.log n))))
      else none
    | .naming .. | .adding .. | .surveying _ | .raising => none
  | .surveyed n answered => match w.handler n with
    | .surveying members =>
      match finalizeTarget (w.state n).featureLevel (survey c.decodes n members answered) with
      | .ok (some level) => some ((w.enter n .raising).push n (.raise level members))
      | .ok none | .error _ => some (w.enter n .idle)
    | .idle | .naming .. | .adding .. | .raising => none
  | .release n => some (w.enter n .idle)
  | .append n => match w.queue n with
    | [] => none
    | r::rest => (w.replicas.append n (entryOf c.initial (w.replicas.log n) r)).map fun replicas =>
      {w with replicas := replicas, queue := Function.update w.queue n rest}
  | .refuse n => some {w with queue := Function.update w.queue n (w.queue n).tail}

/-- Between a check and the write it allows nothing of what it checked has moved: the level in the
node's log is no higher than the one the joiner was validated against, and every member in it was
surveyed. -/
def settled (c : Cluster) (w : World) : Event → Bool
  | .append n => match (w.queue n).head? with
    | some (.addLearner _ validated) => level (w.replicas.log n) ≤ validated
    | some (.raise _ surveyed) => (membersOf c.initial (w.replicas.log n)).all (· ∈ surveyed)
    | some (.command _) | none => true
  | .raft _ | .propose .. | .join .. | .named _ | .addLearner _ | .finalize _ | .surveyed .. | .release _
  | .refuse _ => true

def start (leader : NodeId) : World where
  replicas := {log := fun _ => [], applied := fun _ => 0, leader := leader, leads := fun _ => false}
  queue := fun _ => []
  handler := fun _ => .idle

/-- The levels a member must decode to be sent an entry. -/
def needs : Entry → List U32
  | .command (.setFeatureLevel level) => [1,level]
  | .command cmd => [cmd.requiredFeatureLevel]
  | .membership _ => []

section Log
variable {initial : List NodeId} {log l l' : List Entry} {e : Entry}

theorem featureLevel_apply (s : ClusterState) (cmd : ClusterCommand) :
    (s.apply cmd).1.featureLevel = max s.featureLevel (raises (.command cmd)) := by
  have hk : s.featureLevel = max s.featureLevel 0 := (max_eq_left (Fin.zero_le _)).symm
  by_cases h : s.admits cmd
  · rw [ClusterState.apply_fst,if_pos h]
    cases cmd with
    | setFeatureLevel level => rfl
    | _ => exact hk
  · rw [ClusterState.apply_fst,if_neg h]
    cases cmd with
    | setFeatureLevel level => exact absurd rfl h
    | _ => exact hk

theorem level_concat (log : List Entry) (e : Entry) : level (log++[e]) = max (level log) (raises e) :=
  foldl_concat ..

theorem featureLevel_clusterState (log : List Entry) : (clusterState log).featureLevel = level log := by
  induction log using List.reverseRecOn with
  | nil => rfl
  | append_singleton log e ih =>
    rw [clusterState,foldl_concat,level_concat,← ih]
    cases e with
    | command cmd => exact featureLevel_apply _ cmd
    | membership ids => exact (max_eq_left (Fin.zero_le _)).symm

theorem level_mono (h : l <+: l') : level l ≤ level l' := by
  obtain ⟨rest,rfl⟩ := h
  induction rest using List.reverseRecOn with
  | nil => rw [append_nil]
  | append_singleton rest e ih =>
    rw [← append_assoc,level_concat]
    exact ih.trans (le_max_left _ _)

theorem membersOf_concat (log : List Entry) (e : Entry) :
    membersOf initial (log++[e]) = match e with
      | .command _ => membersOf initial log
      | .membership ids => ids :=
  foldl_concat ..

end Log

def Decodable (c : Cluster) (log : List Entry) : Prop :=
  ∀ l, l <+: log → (∀ id ∈ membersOf c.initial l, level l ≤ c.decodes id) ∧
    ∀ p e, l = p++[e] → ∀ n ∈ needs e, n ≤ level l

section Decodable
variable {c : Cluster} {log l : List Entry} {e : Entry}

theorem Decodable.mono (h : Decodable c log) (hl : l <+: log) : Decodable c l :=
  fun l' hl' => h l' (hl'.trans hl)

theorem decodable_nil : Decodable c [] := by
  intro l hl
  rw [List.prefix_nil.1 hl]
  exact ⟨fun id _ => Fin.zero_le _,fun p e h => by simp at h⟩

theorem Decodable.concat (h : Decodable c log)
    (hi : ∀ id ∈ membersOf c.initial (log++[e]), level (log++[e]) ≤ c.decodes id)
    (hn : ∀ n ∈ needs e, n ≤ level (log++[e])) : Decodable c (log++[e]) := by
  intro l hl
  rcases List.prefix_concat_iff.1 hl with rfl | hl
  · refine ⟨hi,fun p f hp => ?_⟩
    obtain ⟨_,hef⟩ := append_inj' hp rfl
    cases hef
    exact hn
  · exact h l hl

theorem Decodable.le_decodes (h : Decodable c log) {p : List Entry} (hp : p++[e] <+: log) {n : U32}
    (hn : n ∈ needs e) {id : NodeId} (hid : id ∈ membersOf c.initial log) : n ≤ c.decodes id :=
  calc n ≤ level (p++[e]) := (h _ hp).2 p e rfl n hn
    _ ≤ level log := level_mono hp
    _ ≤ c.decodes id := (h log prefix_rfl).1 id hid

end Decodable

theorem admitCommand_eq_ok {s : ClusterState} {cmd : ClusterCommand} (h : admitCommand s cmd = .ok ()) :
    raises (.command cmd) = 0 ∧ ∀ n ∈ needs (.command cmd), n ≤ s.featureLevel := by
  cases cmd with
  | setFeatureLevel level => cases h
  | _ =>
    refine ⟨rfl,?_⟩
    rw [admitCommand.eq_def] at h
    dsimp only at h
    split_ifs at h with hlt
    simpa [needs] using hlt

theorem finalizeTarget_survey {decodes : NodeId → U32} {n : NodeId} {members answered : List NodeId}
    {committed level : U32}
    (h : finalizeTarget committed (survey decodes n members answered) = .ok (some level)) :
    committed < level ∧ ∀ id ∈ members, level ≤ decodes id := by
  rw [finalizeTarget] at h
  split_ifs at h with hs
  rw [Except.ok.injEq,Option.filter_eq_some_iff,decide_eq_true_eq] at h
  obtain ⟨hmi,hlt⟩ := h
  refine ⟨hlt,fun id hid => (List.min?_eq_some_iff.1 hmi).2 _ ?_⟩
  have hn := filter_eq_nil_iff.1 (map_eq_nil_iff.1 (not_not.1 hs))
  have hm : (id,if id = n ∨ id ∈ answered then some (decodes id) else none) ∈
      survey decodes n members answered := mem_map_of_mem hid
  have ha : id = n ∨ id ∈ answered := by
    by_contra hno
    rw [if_neg hno] at hm
    exact hn _ hm rfl
  rw [if_pos ha] at hm
  exact mem_filterMap.2 ⟨_,hm,rfl⟩

/-- What a write in a node's queue may rest on: the level its command needs is applied there, the
joiner decodes the level it was validated against, the surveyed decode the level to raise to. -/
def Allowed (c : Cluster) (applied : U32) : Request → Prop
  | .command cmd => raises (.command cmd) = 0 ∧ ∀ n ∈ needs (.command cmd), n ≤ applied
  | .addLearner id validated => validated ≤ c.decodes id
  | .raise level surveyed => 0 < level ∧ ∀ id ∈ surveyed, level ≤ c.decodes id

def Validated (c : Cluster) : Handler → Prop
  | .naming info validated => validated ≤ c.decodes info.id
  | .adding id validated => validated ≤ c.decodes id
  | .idle | .surveying _ | .raising => True

structure Inv (c : Cluster) (w : World) : Prop where
  replicas : WellFormed w.replicas
  logs : ∀ n, Decodable c (w.replicas.log n)
  queue : ∀ n, ∀ r ∈ w.queue n, Allowed c (level (w.replicas.view n)) r
  handler : ∀ n, Validated c (w.handler n)

section Inv
variable {c : Cluster} {w w' : World} {n : NodeId}

theorem inv_start (leader : NodeId) : Inv c (start leader) where
  replicas := ⟨prefix_rfl,fun _ => le_rfl,fun _ => prefix_rfl⟩
  logs _ := decodable_nil
  queue _ _ hr := absurd hr not_mem_nil
  handler _ := trivial

theorem Allowed.mono {a b : U32} {r : Request} (h : Allowed c a r) (hab : a ≤ b) : Allowed c b r := by
  cases r with
  | command cmd => exact ⟨h.1,fun n hn => (h.2 n hn).trans hab⟩
  | addLearner id validated => exact h
  | raise level surveyed => exact h

theorem inv_push (hi : Inv c w) {r : Request} (hr : Allowed c (level (w.replicas.view n)) r) :
    Inv c (w.push n r) := by
  refine ⟨hi.replicas,hi.logs,fun m q hq => ?_,hi.handler⟩
  by_cases hm : m = n
  · subst hm
    simp only [World.push,Function.update_self,mem_append,mem_singleton] at hq
    rcases hq with hq | rfl
    · exact hi.queue m q hq
    · exact hr
  · simp only [World.push,Function.update_of_ne hm] at hq
    exact hi.queue m q hq

theorem inv_enter (hi : Inv c w) {h : Handler} (hh : Validated c h) : Inv c (w.enter n h) := by
  refine ⟨hi.replicas,hi.logs,hi.queue,fun m => ?_⟩
  by_cases hm : m = n
  · subst hm
    simp only [World.enter,Function.update_self]
    exact hh
  · simp only [World.enter,Function.update_of_ne hm]
    exact hi.handler m

theorem inv_raft (hi : Inv c w) {change : Change NodeId} {replicas : Replicas NodeId Entry}
    (h : w.replicas.change change = some replicas) : Inv c {w with replicas := replicas} where
  replicas := wellFormed_change hi.replicas h
  logs := forall_log_change (fun _ _ hl hd => hd.mono hl) hi.logs h
  queue m r hr := (hi.queue m r hr).mono (level_mono (view_change hi.replicas h m))
  handler := hi.handler

/-- The write that a check has allowed is appended while what it checked stands. -/
theorem decodable_append (hi : Inv c w) {r : Request} {rest : List Request}
    (hq : w.queue n = r::rest) (hg : settled c w (.append n)) :
    Decodable c (w.replicas.log n++[entryOf c.initial (w.replicas.log n) r]) := by
  have ha := hi.queue n r (by simp [hq])
  have hlo := (hi.logs n _ prefix_rfl).1
  simp only [settled,hq,List.head?_cons] at hg
  cases r with
  | command cmd =>
    have hl : level (w.replicas.log n++[.command cmd]) = level (w.replicas.log n) := by
      rw [level_concat,ha.1]
      exact max_eq_left (Fin.zero_le _)
    refine (hi.logs n).concat ?_ fun m hm => ?_
    · rw [entryOf,hl,membersOf_concat]
      exact hlo
    · rw [entryOf,hl]
      exact (ha.2 m hm).trans (level_mono (hi.replicas.view n))
  | addLearner id validated =>
    have hl : ∀ ids, level (w.replicas.log n++[.membership ids]) = level (w.replicas.log n) := by
      intro ids
      rw [level_concat]
      exact max_eq_left (Fin.zero_le _)
    refine (hi.logs n).concat (fun m hm => ?_) fun m hm => absurd hm not_mem_nil
    rw [entryOf,membersOf_concat] at hm
    rw [entryOf,hl]
    rcases List.mem_insert_iff.1 hm with rfl | hm
    · exact (of_decide_eq_true hg).trans ha
    · exact hlo m hm
  | raise raised surveyed =>
    refine (hi.logs n).concat (fun m hm => ?_) fun m hm => ?_
    · rw [entryOf,membersOf_concat] at hm
      rw [entryOf,level_concat]
      exact max_le (hlo m hm) (ha.2 m (of_decide_eq_true (all_eq_true.1 hg m hm)))
    · rw [entryOf,level_concat]
      refine le_trans ?_ (le_max_right _ _)
      simp only [entryOf,needs,mem_cons,not_mem_nil,or_false] at hm
      rcases hm with rfl | rfl
      · exact Fin.one_le_of_ne_zero ha.1.ne'
      · exact le_rfl

theorem inv_append (hi : Inv c w) {r : Request} {rest : List Request}
    {replicas : Replicas NodeId Entry} (hq : w.queue n = r::rest) (hg : settled c w (.append n))
    (h : w.replicas.append n (entryOf c.initial (w.replicas.log n) r) = some replicas) :
    Inv c {w with replicas := replicas, queue := Function.update w.queue n rest} := by
  refine ⟨wellFormed_append hi.replicas h,
    forall_log_append hi.logs (decodable_append hi hq hg) h,fun m q hme => ?_,hi.handler⟩
  have hold : q ∈ w.queue m := by
    by_cases hm : m = n
    · subst hm
      simp only [Function.update_self] at hme
      rw [hq]
      exact mem_cons_of_mem _ hme
    · simpa only [Function.update_of_ne hm] using hme
  rw [view_append h]
  exact hi.queue m q hold

theorem inv_refuse (hi : Inv c w) :
    Inv c {w with queue := Function.update w.queue n (w.queue n).tail} := by
  refine ⟨hi.replicas,hi.logs,fun m q hme => hi.queue m q ?_,hi.handler⟩
  by_cases hm : m = n
  · subst hm
    simp only [Function.update_self] at hme
    exact mem_of_mem_tail hme
  · simpa only [Function.update_of_ne hm] using hme

theorem inv_step {e : Event} (hi : Inv c w) (hg : settled c w e) (h : step c w e = some w') :
    Inv c w' := by
  revert h
  fun_cases step c w e <;> intro h <;> try cases h
  · obtain ⟨replicas,hc,rfl⟩ := Option.map_eq_some_iff.1 h
    exact inv_raft hi hc
  · next hok =>
    refine inv_push hi ?_
    rw [← featureLevel_clusterState]
    exact admitCommand_eq_ok hok
  · next n info _ committed hl =>
    have hv : committed ≤ c.decodes info.id := by simpa [featureLevelRefusal] using hl.2.1
    exact inv_push (inv_enter (h := .naming info committed) hi hv)
      ⟨rfl,by simp [needs,ClusterCommand.requiredFeatureLevel]⟩
  · next n _ _ hn _ =>
    have hv := hi.handler n
    rw [hn] at hv
    exact inv_enter hi hv
  · next n _ _ hn =>
    have hv := hi.handler n
    rw [hn] at hv
    exact inv_push hi hv
  · exact inv_enter hi trivial
  · next ht =>
    obtain ⟨hlt,hd⟩ := finalizeTarget_survey ht
    exact inv_push (inv_enter (h := .raising) hi trivial) ⟨(Fin.zero_le _).trans_lt hlt,hd⟩
  · exact inv_enter hi trivial
  · exact inv_enter hi trivial
  · exact inv_enter hi trivial
  · next hq =>
    obtain ⟨replicas,ha,rfl⟩ := Option.map_eq_some_iff.1 h
    exact inv_append hi hq hg ha
  · exact inv_refuse hi

end Inv

/-- Where no check is overtaken, every member in force with the committed log since an entry, and with
any log that has the entry, decodes it. -/
theorem feature_level_safe (c : Cluster) (leader : NodeId) {es : List Event} {w : World}
    (hsettled : Guarded (step c) (fun w e => settled c w e) (start leader) es)
    (hrun : run (step c) (start leader) es = some w) {p : List Entry} {e : Entry} {n : U32}
    (hn : n ∈ needs e) :
    (∀ l, l <+: w.replicas.committed → p++[e] <+: l →
        ∀ id ∈ membersOf c.initial l, n ≤ c.decodes id) ∧
      ∀ m, p++[e] <+: w.replicas.log m →
        ∀ id ∈ membersOf c.initial (w.replicas.log m), n ≤ c.decodes id := by
  have hi := run_invariant_guarded (fun s l t hs hg ht => inv_step hs hg ht) (inv_start leader)
    hsettled hrun
  refine ⟨fun l hl hp id hid => ?_,fun m hp id hid => ?_⟩
  · have hd := (hi.logs w.replicas.leader).mono (hl.trans hi.replicas.leader)
    exact hd.le_decodes hp hn hid
  · exact (hi.logs m).le_decodes hp hn hid

def mixed : Cluster where
  decodes id := if id = 5 then 0 else 1
  initial := [1,2,3]

def joiner (id : NodeId) : NodeInfo :=
  let addr : SocketAddr := .v4 (Vector.replicate 4 0) 0
  ⟨id,addr,addr,addr,addr,.follower,0⟩

def upgraded : List Event :=
  [.raft (.elect 1),.finalize 1,.surveyed 1 [2,3],.append 1,.raft (.commit 1),.raft (.apply 1),
    .release 1,.join 1 (joiner 4),.append 1,.raft (.commit 2),.raft (.apply 1),.named 1,.addLearner 1,
    .append 1,.raft (.commit 3)]

theorem feature_level_safe_upgraded : ∃ w, run (step mixed) (start 1) upgraded = some w ∧
    ∀ id ∈ membersOf mixed.initial w.replicas.committed, 1 ≤ mixed.decodes id := by
  have hs : Guarded (step mixed) (fun w e => settled mixed w e) (start 1) upgraded := by
    decide +kernel
  have hso : (run (step mixed) (start 1) upgraded).any fun w =>
      [.command (.setFeatureLevel 1)] <+: w.replicas.committed := by decide +kernel
  obtain ⟨w,hr,hw⟩ := (Option.any_eq_true _ _).1 hso
  have hsa := feature_level_safe mixed 1 hs hr (p := []) (e := .command (.setFeatureLevel 1))
    (n := 1) (by simp [needs])
  exact ⟨w,hr,hsa.1 _ prefix_rfl (of_decide_eq_true hw)⟩

/-- The finalize handler is dropped while its write waits for a quorum; the joiner is validated before
the write is applied and added after. -/
def dropped : List Event :=
  [.raft (.elect 1),.finalize 1,.surveyed 1 [2,3],.append 1,.release 1,.join 1 (joiner 5),.append 1,
    .raft (.commit 2),.raft (.apply 1),.raft (.apply 1),.named 1,.addLearner 1,.append 1,
    .raft (.commit 3)]

/-- Between the validation on one node and its add, another node leads and raises the level. -/
def moved : List Event :=
  [.raft (.elect 1),.join 1 (joiner 5),.append 1,.raft (.commit 1),.raft (.apply 1),.named 1,
    .raft (.replicate 2 1),.raft (.elect 2),.raft (.stepDown 1),.finalize 2,.surveyed 2 [1,3],.append 2,
    .raft (.commit 2),.raft (.replicate 1 2),.raft (.elect 1),.raft (.stepDown 2),.addLearner 1,
    .append 1,.raft (.commit 3)]

theorem feature_level_unsafe : [dropped,moved].Forall fun es =>
    (run (step mixed) (start 1) es).any fun w =>
      decide (.command (.setFeatureLevel 1) ∈ w.replicas.committed) &&
        (membersOf mixed.initial w.replicas.committed).any fun id => mixed.decodes id < 1 := by
  rw [forall_iff_forall_mem]
  decide +kernel

end FeatureLevel
end PgBattery
