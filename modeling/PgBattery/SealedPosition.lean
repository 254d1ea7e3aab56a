import PgBattery.FenceCoverage
import PgBattery.TransitionSystem

/-! Reading the sealed position while sessions of the fenced roles go on: the fence is observed, the
sessions are terminated and waited for, and the insert position is read. -/
namespace PgBattery
namespace SealedPosition
open Privileges Reachability SqlReply FenceCoverage TransitionSystem List

/-- A session of a fenced role or of a member of one. `writing` tells whether a transaction that
passed its privilege check is open. -/
structure Session where
  pid : U32
  role : Name
  writing : Bool := false
  deriving DecidableEq

/-- Where `sealed_position_once_fenced` stands. -/
inductive Flow
  | polling
  | fenced
  | draining (pids : List U32) (attempts : ℕ)
  | drained
  | returned (lsn : U64)
  | failed
  deriving DecidableEq

structure Deployment where
  appRoles : List Name
  clusterId : Text

structure World where
  catalog : Catalog
  inRecovery : Bool := false
  ddlTrigger : Bool := false
  fenceTable : Option (List Text) := none
  /-- The insert position. -/
  position : U64 := 0
  sessions : List Session := []
  /-- Transactions with writes that these sessions prepared. -/
  prepared : List ℕ := []
  /-- Whether any other transaction is prepared. -/
  others : Bool := false
  /-- Where these sessions' commit records are. -/
  commits : List U64 := []
  flow : Flow := .polling

def World.server (w : World) : Server where
  catalog := w.catalog
  inRecovery := w.inRecovery
  ddlTrigger := w.ddlTrigger
  fenceTable := w.fenceTable
  preparedXacts := w.prepared ≠ [] || w.others

inductive Event
  | reconcile
  | freeze
  | login (pid : U32) (role : Name)
  | write (pid : U32)
  | commit (pid : U32) (lsn : U64)
  | rollback (pid : U32)
  | prepare (pid : U32) (gid : ℕ)
  | commitPrepared (pid : U32) (gid : ℕ) (lsn : U64)
  | rollbackPrepared (pid : U32) (gid : ℕ)
  | exit (pid : U32)
  | insert (lsn : U64)
  | others (prepared : Bool)
  | observe
  | terminate
  | count
  | read
  | fail
  | reissue
  deriving DecidableEq

def backendDrainAttempts : ℕ := 40

/-- The roles `terminate_backends_sql` walks down to. -/
def terminated (c : Catalog) (appRoles : List Name) : List Name :=
  closure (c.memberEdges.map Prod.swap) (appRoles.filter fun r => (c.role r).isSome)

def terminateBackends (c : Catalog) (appRoles : List Name) (sessions : List Session) : List U32 :=
  (sessions.filter fun s => s.role ∈ terminated c appRoles).map Session.pid

def survivingBackends (sessions : List Session) (pids : List U32) : ℕ :=
  sessions.countP fun s => s.pid ∈ pids

/-- The reply of `sealed_position_sql`; a standby has no insert position. -/
def sealedPositionReply (w : World) (appRoles : List Name) : Option Text :=
  if w.inRecovery then none
  else some (boolText (revocableGrants w.catalog appRoles)++ '|'::lsnText w.position)

def sealedPosition (reply : Option Text) : Option U64 := do
  let (grants,lsn) ← splitOnce '|' (trim (← reply))
  match parsePgBool grants with
  | .ok false => parseLsnBytes lsn
  | _ => none

def World.update (w : World) (pid : U32) (writing : Bool) : World :=
  {w with sessions := w.sessions.map fun s => if s.pid = pid then {s with writing} else s}

def World.alive (w : World) (pid : U32) : Bool := w.sessions.any fun s => s.pid = pid

def World.open (w : World) (pid : U32) : Bool := w.sessions.any fun s => s.pid = pid && s.writing

def World.record (w : World) (lsn : U64) : World := {w with position := lsn, commits := lsn::w.commits}

theorem plain_of_mem_boolText {b : Bool} {c : Char} (h : c ∈ boolText b) :
    whitespace c = false ∧ c ≠ '|' := by
  have ha : ∀ b, (boolText b).all (fun c => !whitespace c && c ≠ '|') := by decide
  simpa using all_eq_true.1 (ha b) c h

theorem sealedPosition_reply (w : World) (appRoles : List Name) :
    sealedPosition (sealedPositionReply w appRoles) =
      if w.inRecovery ∨ revocableGrants w.catalog appRoles then none else some w.position := by
  cases hr : w.inRecovery with
  | true =>
    rw [sealedPositionReply,hr,if_pos rfl,if_pos (.inl rfl)]
    rfl
  | false =>
    generalize hb : revocableGrants w.catalog appRoles = b
    have ht : trim (boolText b++ '|'::lsnText w.position) = boolText b++ '|'::lsnText w.position := by
      refine trim_eq_self fun c hc => ?_
      rcases mem_append.1 hc with hc | hc
      · exact (plain_of_mem_boolText hc).1
      · rcases mem_cons.1 hc with rfl | hc
        · rfl
        · exact whitespace_of_mem_lsnText hc
    have hba : '|' ∉ boolText b := fun h => (plain_of_mem_boolText h).2 rfl
    rw [sealedPositionReply,hr,hb,if_neg Bool.false_ne_true,sealedPosition]
    simp only [Option.bind_eq_bind,Option.bind_some,ht,splitOnce_append hba,parsePgBool_boolText]
    cases b with
    | true => rfl
    | false => exact parseLsnBytes_lsnText w.position

variable (d : Deployment)

def step (w : World) : Event → Option World
  -- `fence_action` applies the fence while there is something to revoke
  | .reconcile =>
    if revocableGrants w.catalog d.appRoles then
      some {w with
        catalog := applyClientWriteFence d.appRoles w.catalog,
        fenceTable := some (d.clusterId::w.fenceTable.getD [])}
    else some w
  | .freeze => some {w with ddlTrigger := true}
  | .login pid role =>
    if !w.alive pid && d.appRoles.any (· ∈ w.catalog.identities role) then
      some {w with sessions := ⟨pid,role,false⟩::w.sessions}
    else none
  -- the grants the fence revokes are the only write path
  | .write pid =>
    if w.alive pid && revocableGrants w.catalog d.appRoles then some (w.update pid true) else none
  | .commit pid lsn =>
    if w.open pid && w.position < lsn then some ((w.update pid false).record lsn) else none
  | .rollback pid => some (w.update pid false)
  | .prepare pid gid =>
    if w.open pid && gid ∉ w.prepared then
      some {w.update pid false with prepared := gid::w.prepared}
    else none
  | .commitPrepared pid gid lsn =>
    if w.alive pid && gid ∈ w.prepared && w.position < lsn then
      some ({w with prepared := w.prepared.erase gid}.record lsn)
    else none
  | .rollbackPrepared pid gid =>
    if w.alive pid then some {w with prepared := w.prepared.erase gid} else none
  | .exit pid => some {w with sessions := w.sessions.filter fun s => s.pid ≠ pid}
  | .insert lsn => if w.position < lsn then some {w with position := lsn} else none
  | .others prepared => some {w with others := prepared}
  | .observe =>
    if w.flow = .polling then
      match observe w.server d.appRoles d.clusterId with
      | .ok seen => some (if seen.sealable then {w with flow := .fenced} else w)
      | .error _ => some w
    else none
  | .terminate =>
    if w.flow = .fenced then
      let pids := terminateBackends w.catalog d.appRoles w.sessions
      some {w with flow := if pids = [] then .drained else .draining pids backendDrainAttempts}
    else none
  | .count =>
    match w.flow with
    | .draining pids (attempts+1) =>
      some {w with flow :=
        if survivingBackends w.sessions pids = 0 then .drained else .draining pids attempts}
    | .draining _ 0 => some {w with flow := .failed}
    | _ => none
  | .read =>
    if w.flow = .drained then
      match sealedPosition (sealedPositionReply w d.appRoles) with
      | some lsn => some {w with flow := .returned lsn}
      | none => some {w with flow := .failed}
    else none
  | .fail =>
    match w.flow with
    | .returned _ => none
    | _ => some {w with flow := .failed}
  | .reissue => if w.flow = .failed then some {w with flow := .polling} else none


variable {d} {w w' : World} {e : Event}

def Flow.waitsFor : Flow → U32 → Prop
  | .draining pids _, pid => pid ∈ pids
  | .drained, _ | .returned _, _ => False
  | .polling, _ | .fenced, _ | .failed, _ => True

def Flow.closed : Flow → Bool
  | .fenced | .draining .. | .drained | .returned _ => true
  | .polling | .failed => false

/-- A transaction prepared now is seen by no one: the fence has been observed and the sessions are
not gone yet. -/
def Flow.window : Flow → Bool
  | .fenced | .draining .. => true
  | .polling | .drained | .returned _ | .failed => false

structure Inv (d : Deployment) (w : World) : Prop where
  bounded : ∀ lsn ∈ w.commits, lsn ≤ w.position
  listed : ∀ s ∈ w.sessions, s.role ∈ terminated w.catalog d.appRoles
  revoked : w.flow.closed = true → revocableGrants w.catalog d.appRoles = false
  prepared : w.flow.closed = true → w.prepared = []
  waits : ∀ s ∈ w.sessions, s.writing = true → w.flow.waitsFor s.pid
  bound : ∀ final, w.flow = .returned final → ∀ lsn ∈ w.commits, lsn ≤ final

/-- What the interleaving must keep to: no session belongs to a fenced role by the database's ownership
alone, and none prepares a transaction between the observation and the end of the drain. -/
def meets (d : Deployment) (w : World) : Event → Prop
  | .login _ role => role ∈ terminated w.catalog d.appRoles
  | .prepare .. => w.flow.window = false
  | _ => True

instance instDecidableMeets (d : Deployment) (w : World) (e : Event) : Decidable (meets d w e) := by
  unfold meets
  split <;> infer_instance

theorem exists_of_mem_update {pid : U32} {writing : Bool} {s : Session}
    (h : s ∈ (w.update pid writing).sessions) :
    ∃ t ∈ w.sessions, s.role = t.role ∧ s.pid = t.pid ∧
      (s.writing → t.writing ∨ writing ∧ t.pid = pid) := by
  grind [World.update]

theorem terminated_fence (appRoles : List Name) (c : Catalog) :
    terminated (applyClientWriteFence appRoles c) appRoles = terminated c appRoles := by
  have hr := fence_revokes appRoles c
  simp only [terminated,Catalog.memberEdges,Catalog.role,hr.members,hr.roles]

theorem Inv.update (h : Inv d w) (pid : U32) : Inv d (w.update pid false) where
  bounded := h.bounded
  listed s hs := by
    obtain ⟨t,ht,hr,-,-⟩ := exists_of_mem_update hs
    exact hr ▸ h.listed t ht
  revoked := h.revoked
  prepared := h.prepared
  waits s hs hw := by
    obtain ⟨t,ht,-,hp,hwr⟩ := exists_of_mem_update hs
    exact hp ▸ h.waits t ht (by grind)
  bound := h.bound

/-- A commit record is written by an open transaction or a prepared one, and once the position is
read there is neither. -/
theorem Inv.record (h : Inv d w) {lsn : U64} (hl : w.position < lsn)
    (hfl : ∀ final, w.flow ≠ .returned final) : Inv d (w.record lsn) where
  bounded := forall_mem_cons.2 ⟨le_rfl,fun r hr => (h.bounded r hr).trans hl.le⟩
  listed := h.listed
  revoked := h.revoked
  prepared := h.prepared
  waits := h.waits
  bound final hf := absurd hf (hfl final)

theorem Inv.not_returned_of_open (h : Inv d w) {pid : U32} (ho : w.open pid) (final : U64) :
    w.flow ≠ .returned final := by
  intro hf
  obtain ⟨s,hs,hw⟩ := any_eq_true.1 ho
  simpa [hf,Flow.waitsFor] using h.waits s hs (Bool.and_eq_true_iff.1 hw).2

def Event.ofSession : Event → Bool
  | .login .. | .write _ | .commit .. | .rollback _ | .prepare .. | .commitPrepared ..
  | .rollbackPrepared .. | .exit _ => true
  | _ => false

theorem inv_session (h : Inv d w) (he : e.ofSession) (hm : meets d w e)
    (hst : step d w e = some w') : Inv d w' := by
  cases e with
  | login pid role =>
    obtain ⟨_,⟨⟩⟩ := Option.ite_none_right_eq_some.1 hst
    refine ⟨h.bounded,?_,h.revoked,h.prepared,?_,h.bound⟩ <;> grind [meets,h.listed,h.waits]
  | write pid =>
    obtain ⟨hc,⟨⟩⟩ := Option.ite_none_right_eq_some.1 hst
    -- under a fence seen in force the check does not pass
    have hfl : w.flow.closed = false := by grind [h.revoked]
    have hwa : ∀ pid, w.flow.waitsFor pid := by
      cases hf : w.flow <;> simp_all [Flow.closed,Flow.waitsFor]
    exact ⟨h.bounded,by grind [World.update,h.listed],h.revoked,h.prepared,fun s _ _ => hwa s.pid,h.bound⟩
  | commit pid lsn =>
    obtain ⟨hc,⟨⟩⟩ := Option.ite_none_right_eq_some.1 hst
    have hc := Bool.and_eq_true_iff.1 hc
    exact (h.update pid).record (of_decide_eq_true hc.2) (h.not_returned_of_open hc.1)
  | rollback pid =>
    cases hst
    exact h.update pid
  | prepare pid gid =>
    obtain ⟨hc,⟨⟩⟩ := Option.ite_none_right_eq_some.1 hst
    obtain ⟨s,hs,hw⟩ := any_eq_true.1 (Bool.and_eq_true_iff.1 hc).1
    have hwa := h.waits s hs (Bool.and_eq_true_iff.1 hw).2
    have hfl : w.flow.closed = false := by
      cases hf : w.flow <;> simp_all [meets,Flow.closed,Flow.window,Flow.waitsFor]
    have hu := h.update pid
    exact ⟨hu.bounded,hu.listed,hu.revoked,by simp [World.update,hfl],hu.waits,hu.bound⟩
  | commitPrepared pid gid lsn =>
    obtain ⟨hc,⟨⟩⟩ := Option.ite_none_right_eq_some.1 hst
    have hfl : w.flow.closed = false := by grind [h.prepared]
    have her : Inv d {w with prepared := w.prepared.erase gid} :=
      ⟨h.bounded,h.listed,h.revoked,by simp [hfl],h.waits,h.bound⟩
    exact her.record (by grind) fun final hf => by simp_all [Flow.closed]
  | rollbackPrepared pid gid =>
    obtain ⟨_,⟨⟩⟩ := Option.ite_none_right_eq_some.1 hst
    exact ⟨h.bounded,h.listed,h.revoked,by simp +contextual [h.prepared],h.waits,h.bound⟩
  | exit pid =>
    cases hst
    refine ⟨h.bounded,?_,h.revoked,h.prepared,?_,h.bound⟩ <;> grind [h.listed,h.waits]
  | _ => cases he

theorem Inv.reopen (h : Inv d w) {flow : Flow} (hf : flow.closed = false) :
    Inv d {w with flow} := by
  refine ⟨h.bounded,h.listed,by simp [hf],by simp [hf],fun s _ _ => ?_,?_⟩
  · cases flow <;> trivial
  · rintro final rfl
    cases hf

theorem Inv.drained (h : Inv d w) (hc : w.flow.closed)
    (hq : ∀ s ∈ w.sessions, s.writing = false) : Inv d {w with flow := .drained} :=
  ⟨h.bounded,h.listed,fun _ => h.revoked hc,fun _ => h.prepared hc,by simp +contextual [hq],by simp⟩

theorem inv_observe (h : Inv d w) (hs : step d w .observe = some w') : Inv d w' := by
  obtain ⟨hf,hs⟩ := Option.ite_none_right_eq_some.1 hs
  split at hs
  · next seen hsn =>
    split_ifs at hs with hse <;> cases hs
    · obtain ⟨hr,hn⟩ := seen_of_sealable hsn hse
      simp only [World.server,Bool.or_eq_false_iff,decide_eq_false_iff_not,not_not] at hn
      exact ⟨h.bounded,h.listed,fun _ => hr,fun _ => hn.1,fun _ _ _ => trivial,by simp⟩
    · exact h
  · cases hs
    exact h

theorem inv_terminate (h : Inv d w) (hst : step d w .terminate = some w') : Inv d w' := by
  obtain ⟨hf,⟨⟩⟩ := Option.ite_none_right_eq_some.1 hst
  have hc : w.flow.closed := by simp [hf,Flow.closed]
  have hp : ∀ s ∈ w.sessions, s.pid ∈ terminateBackends w.catalog d.appRoles w.sessions :=
    fun s hs => mem_map_of_mem (mem_filter.2 ⟨hs,decide_eq_true (h.listed s hs)⟩)
  split
  · exact h.drained hc (by grind)
  · exact ⟨h.bounded,h.listed,fun _ => h.revoked hc,fun _ => h.prepared hc,fun s hs _ => hp s hs,by simp⟩

theorem inv_count (h : Inv d w) (hs : step d w .count = some w') : Inv d w' := by
  rw [step] at hs
  split at hs
  · next pids attempts hf =>
    have hc : w.flow.closed := by simp [hf,Flow.closed]
    have hw : ∀ s ∈ w.sessions, s.writing → s.pid ∈ pids := by simpa [hf,Flow.waitsFor] using h.waits
    cases hs
    split
    · next hn => exact h.drained hc (by grind [survivingBackends])
    · exact ⟨h.bounded,h.listed,fun _ => h.revoked hc,fun _ => h.prepared hc,hw,by simp⟩
  · cases hs
    exact h.reopen rfl
  · cases hs

theorem inv_read (h : Inv d w) (hs : step d w .read = some w') : Inv d w' := by
  obtain ⟨hf,hs⟩ := Option.ite_none_right_eq_some.1 hs
  have hc : w.flow.closed := by simp [hf,Flow.closed]
  split at hs <;> cases hs
  · next lsn hl =>
    rw [sealedPosition_reply] at hl
    obtain ⟨_,⟨⟩⟩ := Option.ite_none_left_eq_some.1 hl
    refine ⟨h.bounded,h.listed,fun _ => h.revoked hc,fun _ => h.prepared hc,?_,?_⟩
    · simpa [hf,Flow.waitsFor] using h.waits
    · rintro _ ⟨⟩
      exact h.bounded
  · exact h.reopen rfl

theorem inv_step (h : Inv d w) (hm : meets d w e) (hs : step d w e = some w') : Inv d w' := by
  cases e with
  | reconcile =>
    rw [step] at hs
    split_ifs at hs with hre <;> cases hs
    · have hf : w.flow.closed = false := by grind [h.revoked]
      exact ⟨h.bounded,by simpa [terminated_fence] using h.listed,by simp [hf],h.prepared,h.waits,h.bound⟩
    · exact h
  | freeze | others =>
    cases hs
    exact ⟨h.bounded,h.listed,h.revoked,h.prepared,h.waits,h.bound⟩
  | insert lsn =>
    obtain ⟨hlt,⟨⟩⟩ := Option.ite_none_right_eq_some.1 hs
    exact ⟨fun r hr => (h.bounded r hr).trans hlt.le,h.listed,h.revoked,h.prepared,h.waits,h.bound⟩
  | observe => exact inv_observe h hs
  | terminate => exact inv_terminate h hs
  | count => exact inv_count h hs
  | read => exact inv_read h hs
  | fail =>
    rw [step] at hs
    split at hs <;> cases hs
    exact h.reopen rfl
  | reissue =>
    obtain ⟨_,⟨⟩⟩ := Option.ite_none_right_eq_some.1 hs
    exact h.reopen rfl
  | _ => exact inv_session h rfl hm hs

theorem inv_init (c : Catalog) : Inv d {catalog := c} := by
  constructor <;> simp [Flow.closed]

/-- If no session prepares a transaction while it is drained, every commit record of the fenced roles'
sessions is at or before the position returned. -/
theorem sealed_position_bounds (d : Deployment) (c : Catalog) (events : List Event) (w : World)
    (hmeets : Guarded (step d) (meets d) {catalog := c} events)
    (hrun : run (step d) {catalog := c} events = some w) (final : U64)
    (hreturned : w.flow = .returned final) : ∀ lsn ∈ w.commits, lsn ≤ final :=
  (run_invariant_guarded (fun _ _ _ hi hg hs => inv_step hi hg hs) (inv_init c) hmeets hrun).bound
    final hreturned

section Runs

def donor : Deployment := ⟨[appRole],[]⟩

def drainedRun : List Event :=
  [.login 1 appRole,.write 1,.commit 1 16,.write 1,.reconcile,.freeze,.observe,.terminate,.exit 1,
    .count,.read]

theorem sealed_position_bounds_drained : ∃ w, run (step donor) {catalog := granted} drainedRun = some w ∧
    w.flow = .returned 16 ∧ w.commits = [16] ∧ ∀ lsn ∈ w.commits, lsn ≤ 16 := by
  have hm : Guarded (step donor) (meets donor) {catalog := granted} drainedRun := by decide +kernel
  have hr : (run (step donor) {catalog := granted} drainedRun).any
      (fun w => w.flow = .returned 16 ∧ w.commits = [16]) := by decide +kernel
  obtain ⟨w,hw,he⟩ := (Option.any_eq_true _ _).1 hr
  have he := of_decide_eq_true he
  exact ⟨w,hw,he.1,he.2,sealed_position_bounds donor granted drainedRun w hm hw 16 he.1⟩

/-- The session prepares its transaction between the observation and its termination, and another one
commits it after the position is read. -/
def preparedRun : List Event :=
  [.login 1 appRole,.write 1,.insert 16,.reconcile,.freeze,.observe,.prepare 1 7,.terminate,.exit 1,
    .count,.read,.login 2 appRole,.commitPrepared 2 7 32]

theorem sealed_position_outrun : ∃ w, run (step donor) {catalog := granted} preparedRun = some w ∧
    w.flow = .returned 16 ∧ 32 ∈ w.commits := by
  have hr : (run (step donor) {catalog := granted} preparedRun).any
      (fun w => w.flow = .returned 16 ∧ w.commits.contains 32) := by decide +kernel
  obtain ⟨w,hw,he⟩ := (Option.any_eq_true _ _).1 hr
  have he := of_decide_eq_true he
  exact ⟨w,hw,he.1,List.contains_iff_mem.1 he.2⟩

end Runs
end SealedPosition
end PgBattery
