import PgBattery.SqlReply
import PgBattery.TransitionSystem

/-! A full restore and the recovery at the next start. The restore renames the data directory to a staging name,
writes the backup in its place and deletes the staged tree; the process may die between any two of its file
operations, and the recovery has to tell from the directories alone how far it came. -/
namespace PgBattery
namespace InterruptedRestore
open SqlReply TransitionSystem List

section Clock

/-- A local time as `%Y%m%d_%H%M%S` shows it. -/
structure Fields where
  year : ℕ
  month : ℕ
  day : ℕ
  hour : ℕ
  minute : ℕ
  second : ℕ
  deriving DecidableEq

def leapYear (year : ℕ) : Bool := year%4 = 0 && (year%100 ≠ 0 || year%400 = 0)

def daysIn (year : ℕ) : ℕ → ℕ
  | 2 => if leapYear year then 29 else 28
  | 4 | 6 | 9 | 11 => 30
  | _ => 31

def Fields.valid (f : Fields) : Bool :=
  f.year < 10000 && 1 ≤ f.month && f.month ≤ 12 && 1 ≤ f.day && f.day ≤ daysIn f.year f.month &&
    f.hour < 24 && f.minute < 60 && f.second < 60

abbrev WallClock := {f : Fields // f.valid = true}

def pad : ℕ → ℕ → Text
  | 0, _ => []
  | width+1, n => pad width (n/10)++[Nat.digitChar (n%10)]

def timestampText (w : WallClock) : Text :=
  pad 4 w.1.year++(pad 2 w.1.month++(pad 2 w.1.day++ '_'::(pad 2 w.1.hour++(pad 2 w.1.minute++pad 2 w.1.second))))

end Clock

section Trees

inductive Node
  | dir
  | file (bytes : Text)
  | symlink (target : Text)
  deriving DecidableEq

def Node.isFile : Node → Bool
  | .file _ => true
  | _ => false

/-- What stands under each path of a directory. -/
abbrev Tree := Text → Option Node

abbrev Entry := Text × Node

def Tree.put (t : Tree) (e : Entry) : Tree := Function.update t e.1 (some e.2)

def Tree.unlink (t : Tree) (p : Text) : Tree := Function.update t p none

def emptyTree : Tree := fun _ => none

/-- The tree of a backup, written in any order. -/
def treeOf (entries : List Entry) : Tree := entries.foldl Tree.put emptyTree

def looksValid (t : Tree) : Bool :=
  (t "PG_VERSION".toList).any Node.isFile && (t "global/pg_control".toList).any Node.isFile

def pgdataLooksValid (data : Option Tree) : Bool := data.any looksValid

/-- What a server keeps in its data directory. -/
abbrev Cluster := {t : Tree // looksValid t = true}

end Trees

section Names

def stagingFront (name : Text) : Text := '.'::(name++".pre_restore_".toList)

def stagedName (name : Text) (clock : WallClock) (suffix : ℕ) : Text :=
  stagingFront name++(timestampText clock++ '_'::Nat.toDigits 10 suffix)

def isStaging (name p : Text) : Bool := (stagingFront name).isPrefixOf p

/-- The first name that is free, of those left to try. -/
def freeName (taken : Text → Bool) (candidate : ℕ → Text) : ℕ → ℕ → Option Text
  | 0,_ => none
  | tries+1,suffix =>
    if taken (candidate suffix) then freeName taken candidate tries (suffix+1) else some (candidate suffix)

abbrev Siblings := AList fun _ : Text => Tree

def makeStagedDataDirPath (name : Text) (siblings : Siblings) (clock : WallClock) : Option Text :=
  freeName (fun p => (siblings.lookup p).isSome) (stagedName name clock) 4294967296 0

def newer (name : Text) (newest : Option Text) (p : Text) : Option Text :=
  if isStaging name p && newest.all (· < p) then some p else newest

def findPreRestoreStaging (name : Text) (siblings : Siblings) : Option Text :=
  siblings.keys.foldl (newer name) none

end Names

section Model

/-- What the process is doing. Each phase of a restore has the name of the staged tree, if there was one to stage;
a rollback has whether the data directory still is the whole backup. -/
inductive Phase
  | down
  -- the recovery removes what stands in the place, then moves the staged tree there
  | clearing (chosen : Text)
  | returning (chosen : Text)
  | recovered
  | up
  | staged (old : Option Text) (entries : List Entry)
  | copying (old : Option Text) (rest : List Entry)
  | finalising (old : Option Text)
  | discarding (old : Text)
  | rollback (old : Option Text) (whole : Bool)
  | moving (old : Option Text)
  | stuck (old : Option Text) (whole : Bool)

/-- The data directory and its siblings; `pre` and `post` are the data directory before the last restore and the
tree of its backup. -/
structure State where
  data : Option Tree
  siblings : Siblings
  phase : Phase
  pre : Option Tree
  post : Tree

inductive Event
  | serve (t : Cluster)
  | restore (clock : WallClock) (entries : List Entry)
  | syncFails (undone : Bool)
  | ok
  | fails
  | write (part : Text)
  | finish
  | unlink (p : Text)
  | moved (synced : Bool)
  | recover
  | crash

def State.stage (name : Text) (s : State) (clock : WallClock) (entries : List Entry) : Option State :=
  match s.data with
  | none => some {s with phase := .staged none entries, pre := none, post := treeOf entries}
  | some t => (makeStagedDataDirPath name s.siblings clock).map fun n =>
    {data := none, siblings := s.siblings.insert n t, phase := .staged (some n) entries, pre := some t,
      post := treeOf entries}

def State.moveBack (s : State) (n : Text) (phase : Phase) : State :=
  {s with data := s.siblings.lookup n, siblings := s.siblings.erase n, phase := phase}

def State.unlinkStaged (s : State) (n p : Text) : State :=
  match s.siblings.lookup n with
  | some t => {s with siblings := s.siblings.insert n (t.unlink p)}
  | none => s

def State.recover (name : Text) (s : State) : State :=
  match findPreRestoreStaging name s.siblings with
  | none => {s with phase := .recovered}
  | some n =>
    if pgdataLooksValid s.data then {s with phase := .recovered}
    else if s.data.isSome then {s with phase := .clearing n}
    else {s with phase := .returning n}

def step (name : Text) (s : State) (e : Event) : Option State :=
  match s.phase,e with
  | _,.crash => some {s with phase := .down}
  | .down,.recover => some (s.recover name)
  | .clearing n,.unlink p => some {s with data := s.data.map (·.unlink p), phase := .clearing n}
  | .clearing n,.ok => some {s with data := none, phase := .returning n}
  | .clearing _,.fails | .returning _,.fails => some {s with phase := .down}
  | .returning n,.moved synced => some (s.moveBack n (if synced then .recovered else .down))
  | .recovered,.serve t | .up,.serve t =>
    if s.data.isSome then some {s with data := some t.1, phase := .up, pre := some t.1, post := t.1} else none
  | .recovered,.restore clock entries | .up,.restore clock entries | .stuck _ _,.restore clock entries =>
    s.stage name clock entries
  | .staged (some n) _,.syncFails undone =>
    some (if undone then s.moveBack n .up else {s with phase := .up})
  | .staged old entries,.ok => some {s with data := some emptyTree, phase := .copying old entries}
  | .staged _ _,.fails => some {s with phase := .up}
  | .copying _ ((p,.file bytes)::_),.write part =>
    if part.isPrefixOf bytes then some {s with data := s.data.map (·.put (p,.file part))} else none
  | .copying old (e::rest),.finish => some {s with data := s.data.map (·.put e), phase := .copying old rest}
  | .copying old [],.ok => some {s with phase := .finalising old}
  | .copying old _,.fails => some {s with phase := .rollback old false}
  | .finalising (some n),.ok => some {s with phase := .discarding n}
  | .finalising none,.ok => some {s with phase := .up}
  | .finalising old,.fails => some {s with phase := .rollback old true}
  | .discarding n,.unlink p => some (s.unlinkStaged n p)
  | .discarding n,.ok => some {s with siblings := s.siblings.erase n, phase := .up}
  | .discarding _,.fails => some {s with phase := .up}
  | .rollback old _,.unlink p => some {s with data := s.data.map (·.unlink p), phase := .rollback old false}
  | .rollback old _,.ok => some {s with data := none, phase := .moving old}
  | .rollback old whole,.fails => some {s with phase := .stuck old whole}
  | .moving (some n),.moved _ => some (s.moveBack n .up)
  | .moving none,.ok | .moving _,.fails => some {s with phase := .up}
  | _,_ => none

def start (t : Cluster) (siblings : Siblings) : State := ⟨some t.1,siblings,.up,some t.1,t.1⟩

end Model

section Property

def Recovered (s : State) : Prop := s.phase = .recovered → s.data = s.pre ∨ s.data = some s.post

/-- The data directory is whole, or fails the probe. -/
def mayDie (s : State) : Bool :=
  match s.phase with
  | .copying _ rest => rest.isEmpty || !pgdataLooksValid s.data
  | .rollback _ whole | .stuck _ whole => whole || !pgdataLooksValid s.data
  | _ => true

def meets (name : Text) (s : State) : Event → Prop
  | .restore clock entries => pgdataLooksValid s.data = true ∧ looksValid (treeOf entries) = true ∧
    ∀ n ∈ makeStagedDataDirPath name s.siblings clock, ∀ p ∈ s.siblings.keys, isStaging name p = true → p < n
  | .crash => mayDie s = true
  | _ => True

instance instDecidableMeets (name : Text) (s : State) (e : Event) : Decidable (meets name s e) :=
  match e with
  | .restore clock entries => inferInstanceAs (Decidable (pgdataLooksValid s.data = true ∧
    looksValid (treeOf entries) = true ∧ ∀ n ∈ makeStagedDataDirPath name s.siblings clock,
      ∀ p ∈ s.siblings.keys, isStaging name p = true → p < n))
  | .crash => inferInstanceAs (Decidable (mayDie s = true))
  | .serve _ | .syncFails _ | .ok | .fails | .write _ | .finish | .unlink _ | .moved _ | .recover => isTrue trivial

end Property

section Names
variable {name : Text} {siblings : Siblings} {n : Text}

theorem exists_of_freeName {taken : Text → Bool} {candidate : ℕ → Text} {tries suffix : ℕ}
    (h : freeName taken candidate tries suffix = some n) : ∃ k, n = candidate k := by
  fun_induction freeName taken candidate tries suffix with
  | case1 => cases h
  | case2 tries suffix ht ih => exact ih h
  | case3 tries suffix hf => exact ⟨suffix,(Option.some.inj h).symm⟩

theorem isStaging_of_makeStagedDataDirPath {clock : WallClock}
    (h : makeStagedDataDirPath name siblings clock = some n) : isStaging name n := by
  obtain ⟨suffix,rfl⟩ := exists_of_freeName h
  exact isPrefixOf_iff_prefix.2 (prefix_append _ _)

theorem foldl_newer_eq (hn : isStaging name n) {ps : List Text} {found : Option Text}
    (hma : ∀ p ∈ ps, isStaging name p → p ≤ n) (hf : ∀ p ∈ found, p ≤ n)
    (hm : n ∈ ps ∨ found = some n) : ps.foldl (newer name) found = some n := by
  induction ps generalizing found with
  | nil =>
    rcases hm with hm | hm
    · cases hm
    · exact hm
  | cons p ps ih =>
    rw [foldl_cons]
    have hm' : ∀ q ∈ ps, isStaging name q → q ≤ n := fun q hq => hma q (mem_cons_of_mem p hq)
    rw [newer]
    split
    · next hne =>
      obtain ⟨hs,ha⟩ := Bool.and_eq_true_iff.1 hne
      refine ih hm' (fun q hq => ?_) ?_
      · cases hq
        exact hma p mem_cons_self hs
      · rcases hm with hm | rfl
        · rcases mem_cons.1 hm with rfl | hm
          · exact .inr rfl
          · exact .inl hm
        · have hlt : n < p := by simpa using ha
          exact absurd (hma p mem_cons_self hs) (not_le.2 hlt)
    · next hk =>
      refine ih hm' hf ?_
      rcases hm with hm | hm
      · rcases mem_cons.1 hm with rfl | hm
        · refine .inr ?_
          cases found with
          | none => exact absurd (by rw [hn]; rfl) hk
          | some q =>
            rw [hn,Bool.true_and,Option.all_some,decide_eq_true_eq,not_lt] at hk
            exact congrArg some (le_antisymm (hf q rfl) hk)
        · exact .inl hm
      · exact .inr hm

end Names

section Staged
variable {name : Text} {s : State} {n : Text} {t p : Tree}

structure Holds (name : Text) (siblings : Siblings) (n : Text) (p : Tree) : Prop where
  tree : siblings.lookup n = some p
  staging : isStaging name n = true
  greatest : ∀ q ∈ siblings.keys, isStaging name q = true → q ≤ n

theorem Holds.find_eq {siblings : Siblings} (h : Holds name siblings n p) :
    findPreRestoreStaging name siblings = some n := by
  refine foldl_newer_eq h.staging h.greatest (fun q hq => by cases hq) (.inl ?_)
  exact AList.lookup_isSome.1 (Option.isSome_of_eq_some h.tree)

theorem holds_insert {siblings : Siblings} {clock : WallClock}
    (hn : makeStagedDataDirPath name siblings clock = some n)
    (hg : ∀ q ∈ siblings.keys, isStaging name q → q < n) :
    Holds name (siblings.insert n p) n p := by
  refine ⟨AList.lookup_insert _,isStaging_of_makeStagedDataDirPath hn,fun q hq hs => ?_⟩
  rcases (AList.mem_insert _).1 hq with rfl | hq
  · exact le_refl q
  · exact (hg q hq hs).le

inductive Recoverable (name : Text) (s : State) (p : Tree) : Prop
  | whole (h : s.data = some p ∨ s.data = some s.post)
  | lost {n : Text} (h : Holds name s.siblings n p) (hdata : pgdataLooksValid s.data = false)

/-- Where each phase stands between the tree before the restore and the backup. -/
def Stands (name : Text) (s : State) (p : Tree) : Phase → Prop
  | .down | .up => Recoverable name s p
  | .clearing n => Holds name s.siblings n p ∧ pgdataLooksValid s.data = false
  | .returning n => Holds name s.siblings n p ∧ s.data = none
  | .recovered => s.data = some p ∨ s.data = some s.post
  | .staged old entries => (∃ n, old = some n ∧ Holds name s.siblings n p) ∧ s.data = none ∧
    treeOf entries = s.post
  | .copying old rest => (∃ n, old = some n ∧ Holds name s.siblings n p) ∧
    ∃ t, s.data = some t ∧ rest.foldl Tree.put t = s.post
  | .finalising old => (∃ n, old = some n ∧ Holds name s.siblings n p) ∧ s.data = some s.post
  | .discarding _ => s.data = some s.post
  | .rollback old whole | .stuck old whole => (∃ n, old = some n ∧ Holds name s.siblings n p) ∧
    (whole = true → s.data = some s.post)
  | .moving old => (∃ n, old = some n ∧ Holds name s.siblings n p) ∧ s.data = none

structure Inv (name : Text) (s : State) : Prop where
  post : looksValid s.post = true
  stands : ∃ p, s.pre = some p ∧ looksValid p = true ∧ Stands name s p s.phase

theorem inv_start (t : Cluster) (siblings : Siblings) : Inv name (start t siblings) :=
  ⟨t.2,t.1,rfl,t.2,.whole (.inl rfl)⟩

theorem inv_crash (hi : Inv name s) (hm : meets name s .crash) : Inv name {s with phase := .down} := by
  obtain ⟨p,hpr,hv,hs⟩ := hi.stands
  refine ⟨hi.post,p,hpr,hv,?_⟩
  show Recoverable name _ p
  rw [meets,mayDie] at hm
  cases hph : s.phase <;> rw [hph] at hs hm
  case down | up =>
    rcases hs with h | ⟨h,hd⟩
    · exact .whole h
    · exact .lost h hd
  case clearing => exact .lost hs.1 hs.2
  case returning => exact .lost hs.1 (by rw [hs.2]; rfl)
  case recovered => exact .whole hs
  case staged =>
    obtain ⟨⟨n,-,hh⟩,hd,-⟩ := hs
    exact .lost hh (by rw [hd]; rfl)
  case copying =>
    obtain ⟨⟨n,-,hh⟩,t,hd,hr⟩ := hs
    rcases Bool.or_eq_true_iff.1 hm with hn | hp
    · rw [List.isEmpty_iff.1 hn] at hr
      exact .whole (.inr (by rw [hd]; exact congrArg some hr))
    · exact .lost hh (by simpa using hp)
  case finalising => exact .whole (.inr hs.2)
  case discarding => exact .whole (.inr hs)
  case rollback | stuck =>
    obtain ⟨⟨n,-,hh⟩,hw⟩ := hs
    rcases Bool.or_eq_true_iff.1 hm with hm | hp
    · exact .whole (.inr (hw hm))
    · exact .lost hh (by simpa using hp)
  case moving =>
    obtain ⟨⟨n,-,hh⟩,hd⟩ := hs
    exact .lost hh (by rw [hd]; rfl)

theorem pgdataLooksValid_unlink {data : Option Tree} (q : Text) (h : pgdataLooksValid data = false) :
    pgdataLooksValid (data.map (·.unlink q)) = false := by
  cases data with
  | none => rfl
  | some t =>
    refine Bool.eq_false_iff.2 fun hva => Bool.eq_false_iff.1 h ?_
    have hk : ∀ x, (t.unlink q x).any Node.isFile → (t x).any Node.isFile := by
      intro x hx
      by_cases hxq : x = q
      · subst hxq
        rw [Tree.unlink,Function.update_self] at hx
        cases hx
      · rwa [Tree.unlink,Function.update_of_ne hxq] at hx
    obtain ⟨hv,hc⟩ := Bool.and_eq_true_iff.1 hva
    exact Bool.and_eq_true_iff.2 ⟨hk _ hv,hk _ hc⟩

theorem inv_stage {clock : WallClock} {entries : List Entry} {s' : State}
    (hm : meets name s (.restore clock entries)) (h : s.stage name clock entries = some s') :
    Inv name s' := by
  obtain ⟨hl,hb,hg⟩ := hm
  rw [State.stage] at h
  split at h
  · next hd =>
    rw [hd] at hl
    cases hl
  · next t hd =>
    rw [hd] at hl
    obtain ⟨n,hn,rfl⟩ := Option.map_eq_some_iff.1 h
    exact ⟨hb,t,rfl,hl,⟨n,rfl,holds_insert hn (hg n hn)⟩,rfl,rfl⟩

theorem foldl_put_again (t : Tree) (q : Text) (part node : Node) (rest : List Entry) :
    ((q,node)::rest).foldl Tree.put (t.put (q,part)) = ((q,node)::rest).foldl Tree.put t := by
  rw [foldl_cons,foldl_cons,Tree.put,Tree.put,Function.update_idem]
  rfl

theorem Inv.recover (hs : Stands name s p .down) (ho : looksValid s.post) (hpr : s.pre = some p)
    (hv : looksValid p) : Inv name (s.recover name) := by
  rw [State.recover]
  rcases hs with hw | ⟨hh,hd⟩
  · have hl : pgdataLooksValid s.data := by
      rcases hw with hd | hd
      · rw [hd]
        exact hv
      · rw [hd]
        exact ho
    split
    · exact ⟨ho,p,hpr,hv,hw⟩
    · rw [if_pos hl]
      exact ⟨ho,p,hpr,hv,hw⟩
  · rw [hh.find_eq]
    dsimp only
    rw [if_neg (Bool.eq_false_iff.1 hd)]
    split
    · exact ⟨ho,p,hpr,hv,hh,hd⟩
    · next hn => exact ⟨ho,p,hpr,hv,hh,Option.not_isSome_iff_eq_none.1 hn⟩

theorem inv_step (s : State) (e : Event) (s' : State) (hi : Inv name s) (hm : meets name s e)
    (h : step name s e = some s') : Inv name s' := by
  obtain ⟨ho,p,hpr,hv,hs⟩ := id hi
  rw [step.eq_def] at h
  cases e
  case crash =>
    cases h
    exact inv_crash hi hm
  all_goals cases hp : s.phase <;> rw [hp] at hs h <;> try cases h
  case recover.down => exact Inv.recover hs ho hpr hv
  case restore.recovered | restore.up | restore.stuck => exact inv_stage hm h
  case serve.recovered t | serve.up t =>
    dsimp only at h
    split at h <;> cases h
    exact ⟨t.2,t.1,rfl,t.2,.whole (.inl rfl)⟩
  case unlink.clearing q _ => exact ⟨ho,p,hpr,hv,hs.1,pgdataLooksValid_unlink q hs.2⟩
  case ok.clearing => exact ⟨ho,p,hpr,hv,hs.1,rfl⟩
  case fails.clearing => exact ⟨ho,p,hpr,hv,.lost hs.1 hs.2⟩
  case moved.returning synced _ =>
    refine ⟨ho,p,hpr,hv,?_⟩
    cases synced with
    | true => exact .inl hs.1.tree
    | false => exact .whole (.inl hs.1.tree)
  case fails.returning => exact ⟨ho,p,hpr,hv,.lost hs.1 (by rw [hs.2]; rfl)⟩
  case syncFails.staged undone _ _ =>
    obtain ⟨⟨n,rfl,hh⟩,hd,-⟩ := hs
    cases undone <;> cases h
    · exact ⟨ho,p,hpr,hv,.lost hh (by rw [hd]; rfl)⟩
    · exact ⟨ho,p,hpr,hv,.whole (.inl hh.tree)⟩
  case ok.staged => exact ⟨ho,p,hpr,hv,hs.1,emptyTree,rfl,hs.2.2⟩
  case fails.staged =>
    obtain ⟨⟨n,-,hh⟩,hd,-⟩ := hs
    exact ⟨ho,p,hpr,hv,.lost hh (by rw [hd]; rfl)⟩
  case write.copying part _ rest =>
    obtain ⟨hh,t,hd,hr⟩ := hs
    rcases rest with _ | ⟨⟨q,_ | bytes | _⟩,rest⟩ <;> try cases h
    dsimp only at h
    split at h <;> cases h
    exact ⟨ho,p,hpr,hv,hh,t.put (q,.file part),by rw [hd]; rfl,(foldl_put_again _ _ _ _ _).trans hr⟩
  case finish.copying _ rest =>
    obtain ⟨hh,t,hd,hr⟩ := hs
    cases rest <;> cases h
    next x rest => exact ⟨ho,p,hpr,hv,hh,t.put x,by rw [hd]; rfl,hr⟩
  case ok.copying _ rest =>
    obtain ⟨hh,t,hd,hr⟩ := hs
    cases rest <;> cases h
    exact ⟨ho,p,hpr,hv,hh,by rw [hd]; exact congrArg some hr⟩
  case fails.copying => exact ⟨ho,p,hpr,hv,hs.1,fun hw => by cases hw⟩
  case ok.finalising =>
    obtain ⟨⟨n,rfl,-⟩,hd⟩ := hs
    cases h
    exact ⟨ho,p,hpr,hv,hd⟩
  case fails.finalising => exact ⟨ho,p,hpr,hv,hs.1,fun _ => hs.2⟩
  -- the restored tree is in place: what happens to the staged one does not matter
  case unlink.discarding =>
    rw [State.unlinkStaged]
    split <;> exact ⟨ho,p,hpr,hv,by rw [hp]; exact hs⟩
  case ok.discarding | fails.discarding => exact ⟨ho,p,hpr,hv,.whole (.inr hs)⟩
  case unlink.rollback => exact ⟨ho,p,hpr,hv,hs.1,fun hw => by cases hw⟩
  case ok.rollback => exact ⟨ho,p,hpr,hv,hs.1,rfl⟩
  case fails.rollback => exact ⟨ho,p,hpr,hv,hs⟩
  case ok.moving =>
    obtain ⟨⟨n,rfl,-⟩,-⟩ := hs
    cases h
  case moved.moving =>
    obtain ⟨⟨n,rfl,hh⟩,-⟩ := hs
    cases h
    exact ⟨ho,p,hpr,hv,.whole (.inl hh.tree)⟩
  case fails.moving =>
    obtain ⟨⟨n,-,hh⟩,hd⟩ := hs
    exact ⟨ho,p,hpr,hv,.lost hh (by rw [hd]; rfl)⟩

theorem Inv.recovered (hi : Inv name s) : Recovered s := by
  intro hp
  obtain ⟨p,hpr,-,hs⟩ := hi.stands
  rw [hp] at hs
  rw [hpr]
  exact hs

end Staged

/-- In every run whose restores begin over a cluster under the greatest staging name, and whose crashes do not
fall between the files of the probe and the rest, each recovery leaves the tree from before the restore or
that of the backup. -/
theorem recovered_whole (name : Text) (t : Cluster) (siblings : Siblings) {events : List Event} {s : State}
    (hmeets : Guarded (step name) (meets name) (start t siblings) events)
    (hrun : run (step name) (start t siblings) events = some s) : Recovered s :=
  (run_invariant_guarded inv_step (inv_start t siblings) hmeets hrun).recovered

section Samples

def pgdata : Text := "pgdata".toList

def version : Entry := ("PG_VERSION".toList,.file "16".toList)

def control : Entry := ("global/pg_control".toList,.file "control".toList)

def table (bytes : String) : Entry := ("base/1".toList,.file bytes.toList)

def cluster : Cluster := ⟨treeOf [version,table "old",control],rfl⟩

def clock : WallClock := ⟨⟨2026,3,1,12,0,0⟩,rfl⟩

def leftovers : Siblings := AList.singleton ".pgdata.pre_restore_20260228_230000_0".toList (treeOf [version])

/-- The process dies when all but the last file is written. -/
def controlLast : List Event :=
  [.restore clock [version,table "new",control],.ok,.finish,.finish,.crash,.recover,.ok,.moved true]

theorem controlLast_recovered : ∃ s, run (step pgdata) (start cluster leftovers) controlLast = some s ∧
    s.data = some cluster.1 ∧ Recovered s := by
  have hm : Guarded (step pgdata) (meets pgdata) (start cluster leftovers) controlLast := by decide +kernel
  exact ⟨_,rfl,rfl,recovered_whole pgdata cluster leftovers hm rfl⟩

/-- The same files, those of the probe first. -/
def tableLast : List Event := [.restore clock [version,control,table "new"],.ok,.finish,.finish,.crash,.recover]

/-- The recovery takes the part of the backup for a whole one. -/
theorem partial_backup_kept : ∃ s, run (step pgdata) (start cluster ∅) tableLast = some s ∧
    s.phase = .recovered ∧ s.data = some (treeOf [version,control]) ∧ ¬ Recovered s := by
  refine ⟨_,rfl,rfl,rfl,fun h => ?_⟩
  rcases h rfl with hpr | hp
  · cases congrFun (Option.some.inj hpr) "base/1".toList
  · cases congrFun (Option.some.inj hp) "base/1".toList

end Samples

end InterruptedRestore
end PgBattery
