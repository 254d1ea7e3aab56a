import PgBattery.ReplicationSlots
import PgBattery.Rollback

/-! The confirm of an in-place major upgrade, which deletes the directory the upgrade came from. Which
directory that is stands nowhere: it is found by the names and the version files beside the data
directory, as the apply and the rollback before it have left them. -/
namespace PgBattery
namespace AnchorConfirm
open SqlReply TransitionSystem Rollback List

/-- A directory beside the data directory: what its `PG_VERSION` holds, and whether its
`global/pg_control` is a file. -/
structure Dir where
  version : Option Text
  control : Bool
  deriving DecidableEq

/-- The directories of the parent, in the order they are listed. -/
abbrev Layout := AList fun _ : Text => Dir

/-- `s.parse::<u32>()`. -/
def parseU32 (s : Text) : Option U32 :=
  (Following.parseU64 s).bind fun n => if h : n.val < 4294967296 then some ⟨n.val,h⟩ else none

def Dir.major (d : Dir) : Option U32 := d.version.bind fun raw => parseU32 (trim raw)

def dataDirMajor (layout : Layout) (name : Text) : Option U32 := (layout.lookup name).bind Dir.major

section Names

/-- The name without a trailing `_<major>`. -/
def upgradeSiteBaseName (name : Text) : Text :=
  match rsplitOnce '_' name with
  | some (base,suffix) => if (parseU32 suffix).isSome then base else name
  | none => name

def stripPrefix (front s : Text) : Option Text :=
  if front.isPrefixOf s then some (s.drop front.length) else none

def isCandidate (configured name : Text) : Bool :=
  let base := upgradeSiteBaseName configured
  name = configured || name = base ||
    ((stripPrefix base name).bind (stripPrefix ['_'])).any fun suffix => (parseU32 suffix).isSome

def targetName (name : Text) (toMajor : U32) : Text :=
  upgradeSiteBaseName name++ '_'::Nat.toDigits 10 toMajor.val

end Names

section Probe

def candidates (layout : Layout) (configured : Text) : List (Text × U32) :=
  layout.entries.filterMap fun e =>
    if isCandidate configured e.1 then e.2.major.map fun major => (e.1,major) else none

def older (toMajor : U32) (cs : List (Text × U32)) : Option (Text × U32) :=
  cs.foldl (fun best c => if c.2 < toMajor ∧ best.all (fun b => b.2 < c.2) then some c else best) none

/-- `none` if two candidates claim the same major. -/
def probe (layout : Layout) (configured : Text) (toMajor : U32) : Option UpgradeSite :=
  let cs := candidates layout configured
  if (cs.map Prod.snd).Nodup then
    some {
      oldDataDir := (older toMajor cs).map Prod.fst
      oldMajor := (older toMajor cs).map Prod.snd
      newDataDir := (cs.find? fun c => c.2 = toMajor).map Prod.fst
      oldControlIntact := (older toMajor cs).any fun c => (layout.lookup c.1).any Dir.control}
  else none

end Probe

inductive Removal
  | gone
  | failed (versionLeft controlLeft : Bool)
  deriving DecidableEq

def remove (layout : Layout) (name : Text) : Removal → Layout
  | .gone => layout.erase name
  | .failed versionLeft controlLeft =>
    match layout.lookup name with
    | none => layout
    | some d => layout.insert name ⟨if versionLeft then d.version else none,d.control && controlLeft⟩

/-- A node. `configured` is the directory of the handlers' paths and `supervisor` the one the supervisor is
pointed at; a postmaster runs on each of `running`. The last two fields are history: the directory the
last successful apply upgraded from, and whether a confirm has deleted since. -/
structure Node where
  layout : Layout
  configured : Text
  supervisor : Text
  running : List Text
  watermark : Bool := false
  upgradedFrom : Option Text := none
  confirmed : Bool := false

inductive Start
  | up
  | failed (alive : Bool)
  deriving DecidableEq

def started (dir : Text) (running : List Text) : Start → List Text
  | .up | .failed true => dir::running
  | .failed false => running

/-- The postmaster of the supervisor's directory is stopped. -/
def Node.stopped (n : Node) : Node := {n with running := n.running.filter (· ≠ n.supervisor)}

def Node.retarget (n : Node) (dir : Text) (start : Start) : Node :=
  {n with supervisor := dir, running := started dir n.running start}

def Node.intact (n : Node) (dir : Text) : Bool := (n.layout.lookup dir).any Dir.control

structure ApplyAnswers where
  /-- The handler's own checks. -/
  admitted : Bool
  newBinDir : Bool
  discard : Removal
  initdbParams : Bool
  stop : Bool
  /-- What initdb and pg_upgrade leave if they fail: nothing, or a directory with or without its files. -/
  wreckage : Option (Bool × Bool)
  upgraded : Bool
  /-- pg_upgrade renamed the control file of the old directory. -/
  linked : Bool
  start : Start
  /-- The steps from the write probe to the watermark. -/
  finish : Bool
  stopAgain : Bool
  restart : Start

structure RollbackAnswers where
  /-- The handler's checks, the listing, the write-loss gate and the old binaries. -/
  admitted : Bool
  stop : Bool
  start : Start
  /-- The write probe and the catalogs. -/
  checks : Bool
  /-- The time in the name the discarded directory gets, if the rename succeeds. -/
  aside : Option ℕ
  watermarkRemoved : Bool

structure ConfirmAnswers where
  admitted : Bool
  removal : Removal
  watermarkRemoved : Bool

section Apply

def versionOf (major : U32) : Text := Nat.toDigits 10 major.val

/-- Link mode renames the control file of the old directory. -/
def linkFiles (layout : Layout) (old : Text) (linked : Bool) : Layout :=
  match layout.lookup old with
  | none => layout
  | some d => layout.insert old {d with control := d.control && !linked}

def upgradeFiles (layout : Layout) (old target : Text) (toMajor : U32) (a : ApplyAnswers) : Layout :=
  let layout := linkFiles layout old a.linked
  if a.upgraded then layout.insert target ⟨some (versionOf toMajor),true⟩
  else match a.wreckage with
    | none => layout
    | some (version,control) => layout.insert target ⟨if version then some (versionOf toMajor) else none,control⟩

/-- The old cluster is started again, unless its control file is gone. -/
def recoverOldCluster (n : Node) (old : Text) (a : ApplyAnswers) : Node :=
  if n.intact old then
    let n := if n.supervisor ∈ n.running ∧ a.stopAgain then n.stopped else n
    n.retarget old a.restart
  else n

def runApplyAfterStop (n : Node) (old target : Text) (toMajor : U32) (a : ApplyAnswers) : Bool × Node :=
  let n := {n with layout := upgradeFiles n.layout old target toMajor a}
  if !a.upgraded || target = old then (false,recoverOldCluster n old a)
  else
    let n := n.retarget target a.start
    if a.start ≠ .up || !a.finish || (probe n.layout target toMajor).isNone then
      (false,recoverOldCluster n old a)
    else (true,{n with watermark := true})

def runPrimaryPgUpgradeApply (n : Node) (toMajor : U32) (a : ApplyAnswers) : Bool × Node :=
  let old := n.supervisor
  match dataDirMajor n.layout old with
  | none => (false,n)
  | some fromMajor =>
    let target := targetName old toMajor
    let leftover := (n.layout.lookup target).isSome
    if toMajor.val ≠ fromMajor.val+1 || !a.newBinDir then (false,n)
    -- only the wreckage of an interrupted run is discarded
    else if leftover && !(n.intact old && !n.watermark) then (false,n)
    else
      let n := if leftover then {n with layout := remove n.layout target a.discard} else n
      if leftover && a.discard ≠ .gone || !a.initdbParams || !a.stop then (false,n)
      else runApplyAfterStop n.stopped old target toMajor a

def postgresUpgradeApply (n : Node) (toMajor : U32) (a : ApplyAnswers) : Node :=
  if !a.admitted then n
  else match runPrimaryPgUpgradeApply n toMajor a with
    | (true,n') => {n' with configured := n'.supervisor, upgradedFrom := some n.supervisor, confirmed := false}
    | (false,n') => n'

end Apply

section Rollback

def discardedName (name : Text) (epochSecs : ℕ) : Text :=
  name++".discarded.".toList++Nat.toDigits 10 epochSecs

def rename (layout : Layout) (src dst : Text) : Layout :=
  match layout.lookup src with
  | none => layout
  | some d => (layout.erase src).insert dst d

def rollbackOnto (n : Node) (site : UpgradeSite) (old : Text) (fromMajor : U32) (a : RollbackAnswers) :
    Bool × Node :=
  if !a.stop then (false,n)
  else
    let n := n.stopped.retarget old a.start
    if a.start ≠ .up || !a.checks || dataDirMajor n.layout old ≠ some fromMajor then (false,n)
    else
      let done := {n with watermark := n.watermark && !a.watermarkRemoved}
      match site.newDataDir, a.aside with
      | none, _ => (true,done)
      | some new, some epochSecs =>
        let aside := discardedName new epochSecs
        -- a directory with files in it is in the way
        if (n.layout.lookup aside).any fun d => d.version.isSome then (false,n)
        else (true,{done with layout := rename n.layout new aside})
      | some _, none => (false,n)

def rollbackLocal (n : Node) (toMajor : U32) (a : RollbackAnswers) : Bool × Node :=
  match probe n.layout n.supervisor toMajor with
  | none => (false,n)
  | some site =>
    match site.oldDataDir, site.oldMajor with
    | some old, some fromMajor =>
      if site.oldControlIntact then rollbackOnto n site old fromMajor a else (false,n)
    | _, _ => (false,n)

def postgresUpgradeRollback (n : Node) (toMajor : U32) (a : RollbackAnswers) : Node :=
  if !a.admitted then n
  else match rollbackLocal n toMajor a with
    | (true,n') => {n' with configured := n'.supervisor}
    | (false,n') => n'

end Rollback

section Confirm

/-- The directory `confirm_local` deletes. -/
def confirmVictim (n : Node) (toMajor : U32) : Option Text := do
  let site ← probe n.layout n.configured toMajor
  let old ← site.oldDataDir
  guard (dataDirMajor n.layout n.configured = some toMajor)
  return old

def postgresUpgradeConfirm (n : Node) (toMajor : U32) (a : ConfirmAnswers) : Node :=
  if !a.admitted then n
  else match confirmVictim n toMajor with
    | none => n
    | some old =>
      let n := {n with layout := remove n.layout old a.removal}
      if a.removal = .gone then {n with watermark := n.watermark && !a.watermarkRemoved, confirmed := true}
      else n

end Confirm

inductive Request
  | apply (toMajor : U32) (a : ApplyAnswers)
  | rollback (toMajor : U32) (a : RollbackAnswers)
  | confirm (toMajor : U32) (a : ConfirmAnswers)

def step (n : Node) : Request → Option Node
  | .apply toMajor a => some (postgresUpgradeApply n toMajor a)
  | .rollback toMajor a => some (postgresUpgradeRollback n toMajor a)
  | .confirm toMajor a => some (postgresUpgradeConfirm n toMajor a)

/-- A directory that the probe beside `dir` finds with a major below that of `dir`. -/
def Older (layout : Layout) (dir x : Text) : Prop :=
  isCandidate dir x = true ∧ ∃ m mx, dataDirMajor layout dir = some m ∧ dataDirMajor layout x = some mx ∧ mx < m

/-- What the requests are held to: an apply starts where both pointers agree, in a directory that does not
have the target's name, with nothing older beside it; a rollback names no major above the configured
directory's; a confirm comes while both pointers agree and no postmaster runs elsewhere. -/
def meets (n : Node) : Request → Prop
  | .apply toMajor _ => n.configured = n.supervisor ∧ targetName n.supervisor toMajor ≠ n.supervisor ∧
      ∀ x, ¬Older n.layout n.supervisor x
  | .rollback toMajor _ => ∃ m, dataDirMajor n.layout n.configured = some m ∧ toMajor ≤ m
  | .confirm _ _ => n.configured = n.supervisor ∧ ∀ d ∈ n.running, d = n.supervisor

/-- Everything older beside the configured directory is what the last apply upgraded from, and it has not
been confirmed. The base of the names is one from which no further suffix comes off. -/
structure Anchored (n : Node) : Prop where
  base : upgradeSiteBaseName (upgradeSiteBaseName n.configured) = upgradeSiteBaseName n.configured
  same : upgradeSiteBaseName n.supervisor = upgradeSiteBaseName n.configured
  older : ∀ x, Older n.layout n.configured x → n.upgradedFrom = some x ∧ n.confirmed = false

section Names

theorem parseU32_toDigits (major : U32) : parseU32 (Nat.toDigits 10 major.val) = some major := by
  have hlt : major.val < 18446744073709551616 := major.isLt.trans (by decide)
  have hp : Following.parseU64 (Nat.toDigits 10 major.val) = some ⟨major.val,hlt⟩ :=
    ReplicationSlots.parseU64_eq (fun c hc => ReplicationSlots.isDigit_of_mem_toDigits hc) Nat.toDigits_ne_nil _
      Nat.ofDigitChars_ten_toDigits
  rw [parseU32,hp]
  exact dif_pos major.isLt

variable {s a b base name : Text}

theorem not_mem_of_parseU32 (h : (parseU32 s).isSome) : '_' ∉ s := by
  obtain ⟨n,hn⟩ := Option.isSome_iff_exists.1 h
  obtain ⟨k,hk,-⟩ := Option.bind_eq_some_iff.1 hn
  unfold Following.parseU64 at hk
  have hd : ¬Char.isDigit '_' := by decide
  split at hk <;> dsimp only at hk <;> split at hk
  · cases hk
  · -- a sign stands in front of the digits
    obtain ⟨m,hm,-⟩ := Option.bind_eq_some_iff.1 hk
    exact fun hs => hd (ReplicationSlots.isDigit_of_foldlM hm _ (by simpa using hs))
  · cases hk
  · obtain ⟨m,hm,-⟩ := Option.bind_eq_some_iff.1 hk
    exact fun hs => hd (ReplicationSlots.isDigit_of_foldlM hm _ hs)

theorem eq_append_of_splitOnce {sep : Char} (h : splitOnce sep s = some (a,b)) : s = a++sep::b := by
  by_cases hm : sep ∈ s
  · obtain ⟨x,y,rfl,hx⟩ := List.eq_append_cons_of_mem hm
    rw [splitOnce_append hx] at h
    cases h
    rfl
  · rw [splitOnce,if_neg hm] at h
    cases h

theorem eq_append_of_rsplitOnce (h : rsplitOnce '_' s = some (a,b)) : s = a++ '_'::b := by
  obtain ⟨⟨x,y⟩,hsp,hp⟩ := Option.map_eq_some_iff.1 h
  cases hp
  have hs := congrArg List.reverse (eq_append_of_splitOnce hsp)
  rw [reverse_reverse,reverse_append,reverse_cons,append_assoc] at hs
  exact hs

theorem stripPrefix_eq_some {front rest : Text} : stripPrefix front s = some rest ↔ s = front++rest := by
  rw [stripPrefix,Option.ite_none_right_eq_some,List.isPrefixOf_iff_prefix]
  constructor
  · rintro ⟨⟨t,rfl⟩,h⟩
    rw [drop_left] at h
    rw [Option.some.inj h]
  · rintro rfl
    exact ⟨prefix_append front rest,congrArg some drop_left⟩

/-- The names the flow gives around a base. -/
def Sibling (base name : Text) : Prop :=
  name = base ∨ ∃ suffix, name = base++ '_'::suffix ∧ (parseU32 suffix).isSome

theorem upgradeSiteBaseName_append {suffix : Text} (h : (parseU32 suffix).isSome) :
    upgradeSiteBaseName (base++ '_'::suffix) = base := by
  rw [upgradeSiteBaseName,rsplitOnce_append (not_mem_of_parseU32 h)]
  exact if_pos h

theorem sibling_self (name : Text) : Sibling (upgradeSiteBaseName name) name := by
  rw [upgradeSiteBaseName]
  split
  · next base suffix hs =>
    split
    · next h => exact .inr ⟨suffix,eq_append_of_rsplitOnce hs,h⟩
    · exact .inl rfl
  · exact .inl rfl

theorem isCandidate_iff {configured : Text} :
    isCandidate configured name ↔ Sibling (upgradeSiteBaseName configured) name := by
  simp only [isCandidate,Bool.or_eq_true,decide_eq_true_iff,Option.any_eq_true,Option.bind_eq_some_iff,
    stripPrefix_eq_some]
  constructor
  · rintro ((rfl | h) | ⟨suffix,⟨rest,h,rfl⟩,hp⟩)
    · exact sibling_self name
    · exact .inl h
    · exact .inr ⟨suffix,h,hp⟩
  · rintro (h | ⟨suffix,h,hp⟩)
    · exact .inl (.inr h)
    · exact .inr ⟨suffix,⟨_,h,rfl⟩,hp⟩

theorem upgradeSiteBaseName_of_sibling (hb : upgradeSiteBaseName base = base)
    (h : Sibling base name) : upgradeSiteBaseName name = base := by
  rcases h with rfl | ⟨suffix,rfl,hs⟩
  · exact hb
  · exact upgradeSiteBaseName_append hs

theorem upgradeSiteBaseName_targetName (name : Text) (toMajor : U32) :
    upgradeSiteBaseName (targetName name toMajor) = upgradeSiteBaseName name :=
  upgradeSiteBaseName_append (by rw [parseU32_toDigits]; rfl)

end Names

section Probe
variable {layout : Layout} {dir x : Text} {m toMajor : U32} {site : UpgradeSite}

theorem mem_candidates :
    (x,m) ∈ candidates layout dir ↔ isCandidate dir x ∧ dataDirMajor layout x = some m := by
  rw [candidates,mem_filterMap]
  constructor
  · rintro ⟨⟨name,d⟩,hme,h⟩
    split at h
    · next hc =>
      obtain ⟨major,hm,hp⟩ := Option.map_eq_some_iff.1 h
      cases hp
      refine ⟨hc,?_⟩
      rw [dataDirMajor,AList.mem_lookup_iff.2 hme]
      exact hm
    · cases h
  · rintro ⟨hc,hm⟩
    obtain ⟨d,hd,hm⟩ := Option.bind_eq_some_iff.1 hm
    refine ⟨⟨x,d⟩,AList.mem_lookup_iff.1 hd,?_⟩
    rw [if_pos hc,hm]
    rfl

theorem older_eq_some {cs : List (Text × U32)} {c : Text × U32} (h : older toMajor cs = some c) :
    c ∈ cs ∧ c.2 < toMajor := by
  refine List.foldlRecOn (motive := fun best => best = some c → c ∈ cs ∧ c.2 < toMajor) cs _
    (fun h => by cases h) (fun best hb d hd hc => ?_) h
  split at hc
  · next hlt =>
    cases hc
    exact ⟨hd,hlt.1⟩
  · exact hb hc

theorem probe_eq_some (h : probe layout dir toMajor = some site) :
    (∀ old, site.oldDataDir = some old → ∃ m, site.oldMajor = some m ∧ isCandidate dir old ∧
      dataDirMajor layout old = some m ∧ m < toMajor) ∧
    (∀ new, site.newDataDir = some new → dataDirMajor layout new = some toMajor) ∧
    ∀ x y m, isCandidate dir x → isCandidate dir y → dataDirMajor layout x = some m →
      dataDirMajor layout y = some m → x = y := by
  rw [probe] at h
  split at h
  · next hn =>
    cases h
    refine ⟨fun old hold => ?_,fun new hne => ?_,fun x y m hx hy hmx hmy => ?_⟩
    · obtain ⟨c,hc,rfl⟩ := Option.map_eq_some_iff.1 hold
      obtain ⟨hme,hlt⟩ := older_eq_some hc
      obtain ⟨hca,hm⟩ := mem_candidates.1 hme
      exact ⟨c.2,congrArg (Option.map Prod.snd) hc,hca,hm,hlt⟩
    · obtain ⟨c,hc,rfl⟩ := Option.map_eq_some_iff.1 hne
      have hto : c.2 = toMajor := by simpa using List.find?_some hc
      rw [← hto]
      exact (mem_candidates.1 (List.mem_of_find?_eq_some hc)).2
    · have hs := inj_on_of_nodup_map hn (mem_candidates.2 ⟨hx,hmx⟩) (mem_candidates.2 ⟨hy,hmy⟩) rfl
      exact congrArg Prod.fst hs
  · cases h

end Probe

section Layouts
variable {layout layout' layout'' : Layout} {target x : Text} {toMajor m : U32}

structure Touches (target : Text) (toMajor : U32) (layout layout' : Layout) : Prop where
  others : ∀ x, x ≠ target → dataDirMajor layout' x = dataDirMajor layout x
  target : ∀ m, dataDirMajor layout' target = some m → m = toMajor ∨ dataDirMajor layout target = some m

theorem Touches.refl : Touches target toMajor layout layout := ⟨fun _ _ => rfl,fun _ h => .inr h⟩

theorem Touches.trans (h : Touches target toMajor layout layout')
    (h' : Touches target toMajor layout' layout'') : Touches target toMajor layout layout'' :=
  ⟨fun x hx => (h'.others x hx).trans (h.others x hx),fun m hm => (h'.target m hm).elim .inl (h.target m)⟩

theorem dataDirMajor_insert (d : Dir) (y : Text) :
    dataDirMajor (layout.insert x d) y = if y = x then d.major else dataDirMajor layout y := by
  split
  · next h =>
    rw [h,dataDirMajor,AList.lookup_insert]
    rfl
  · next h => rw [dataDirMajor,AList.lookup_insert_ne h,dataDirMajor]

variable {y : Text}

theorem dataDirMajor_erase (y : Text) :
    dataDirMajor (layout.erase x) y = if y = x then none else dataDirMajor layout y := by
  split
  · next h =>
    rw [h,dataDirMajor,AList.lookup_erase]
    rfl
  · next h => rw [dataDirMajor,AList.lookup_erase_ne h,dataDirMajor]

theorem major_versionOf (major : U32) (control : Bool) :
    (Dir.mk (some (versionOf major)) control).major = some major := by
  have ht : trim (versionOf major) = versionOf major :=
    trim_eq_self fun c hc => whitespace_of_isDigit (ReplicationSlots.isDigit_of_mem_toDigits hc)
  show parseU32 (trim (versionOf major)) = _
  rw [ht]
  exact parseU32_toDigits major

theorem insert_touches {d : Dir} (h : ∀ m, d.major = some m → m = toMajor ∨ dataDirMajor layout target = some m) :
    Touches target toMajor layout (layout.insert target d) := by
  refine ⟨fun x hx => (dataDirMajor_insert d x).trans (if_neg hx),fun m hm => ?_⟩
  rw [dataDirMajor_insert,if_pos rfl] at hm
  exact h m hm

theorem dataDirMajor_of_remove {r : Removal} (h : dataDirMajor (remove layout target r) x = some m) :
    dataDirMajor layout x = some m := by
  cases r with
  | gone =>
    rw [remove,dataDirMajor_erase] at h
    split at h
    · cases h
    · exact h
  | failed versionLeft controlLeft =>
    rw [remove] at h
    split at h
    · exact h
    · next d hd =>
      rw [dataDirMajor_insert] at h
      split at h
      · next hx =>
        rw [hx,dataDirMajor,hd]
        cases versionLeft with
        | true => exact h
        | false => cases h
      · exact h

theorem remove_touches (r : Removal) : Touches target toMajor layout (remove layout target r) := by
  refine ⟨fun x hx => ?_,fun m hm => .inr (dataDirMajor_of_remove hm)⟩
  cases r with
  | gone => rw [remove,dataDirMajor_erase,if_neg hx]
  | failed versionLeft controlLeft =>
    rw [remove]
    split
    · rfl
    · rw [dataDirMajor_insert,if_neg hx]

theorem dataDirMajor_linkFiles (old : Text) (linked : Bool) (y : Text) :
    dataDirMajor (linkFiles layout old linked) y = dataDirMajor layout y := by
  rw [linkFiles]
  split
  · rfl
  · next d hd =>
    rw [dataDirMajor_insert]
    split
    · next h =>
      rw [h,dataDirMajor,hd]
      rfl
    · rfl

theorem upgradeFiles_touches (old : Text) (a : ApplyAnswers) :
    Touches target toMajor layout (upgradeFiles layout old target toMajor a) := by
  have hl : Touches target toMajor layout (linkFiles layout old a.linked) :=
    ⟨fun x _ => dataDirMajor_linkFiles old _ x,fun m hm => .inr ((dataDirMajor_linkFiles old _ _).symm.trans hm)⟩
  refine hl.trans ?_
  rw [upgradeFiles]
  generalize linkFiles layout old a.linked = linked
  split
  · refine insert_touches fun m hm => .inl ?_
    exact Option.some.inj (hm.symm.trans (major_versionOf toMajor true))
  · split
    · exact Touches.refl
    · next version control _ =>
      refine insert_touches fun m hm => .inl ?_
      cases version with
      | true => exact Option.some.inj (hm.symm.trans (major_versionOf toMajor control))
      | false => cases hm

theorem dataDirMajor_upgradeFiles (old : Text) {a : ApplyAnswers} (h : a.upgraded) :
    dataDirMajor (upgradeFiles layout old target toMajor a) target = some toMajor := by
  rw [upgradeFiles,if_pos h,dataDirMajor_insert,if_pos rfl]
  exact major_versionOf toMajor true

end Layouts

section Requests
variable {n n' : Node} {toMajor : U32} {ok : Bool}

/-- The fields that only the handlers write. -/
def SameRecord (n n' : Node) : Prop :=
  n'.configured = n.configured ∧ n'.upgradedFrom = n.upgradedFrom ∧ n'.confirmed = n.confirmed

structure Applied (n : Node) (toMajor : U32) (ok : Bool) (n' : Node) : Prop where
  record : SameRecord n n'
  files : Touches (targetName n.supervisor toMajor) toMajor n.layout n'.layout
  pointed : n'.supervisor = n.supervisor ∨ n'.supervisor = targetName n.supervisor toMajor
  success : ok = true → n'.supervisor = targetName n.supervisor toMajor ∧
    dataDirMajor n'.layout n'.supervisor = some toMajor ∧ (probe n'.layout n'.supervisor toMajor).isSome

theorem recoverOldCluster_spec (old : Text) (a : ApplyAnswers) :
    SameRecord n (recoverOldCluster n old a) ∧ (recoverOldCluster n old a).layout = n.layout ∧
      ((recoverOldCluster n old a).supervisor = old ∨ (recoverOldCluster n old a).supervisor = n.supervisor) := by
  rw [recoverOldCluster]
  split
  · refine ⟨?_,?_,.inl rfl⟩
    · split <;> exact ⟨rfl,rfl,rfl⟩
    · split <;> rfl
  · exact ⟨⟨rfl,rfl,rfl⟩,rfl,.inr rfl⟩

theorem runApplyAfterStop_spec (a : ApplyAnswers)
    (h : runApplyAfterStop n n.supervisor (targetName n.supervisor toMajor) toMajor a = (ok,n')) :
    Applied n toMajor ok n' := by
  have ht : Touches (targetName n.supervisor toMajor) toMajor n.layout
      (upgradeFiles n.layout n.supervisor (targetName n.supervisor toMajor) toMajor a) :=
    upgradeFiles_touches n.supervisor a
  rw [runApplyAfterStop] at h
  split at h
  · obtain ⟨hr,hl,hp⟩ := recoverOldCluster_spec (n := {n with
      layout := upgradeFiles n.layout n.supervisor (targetName n.supervisor toMajor) toMajor a}) n.supervisor a
    cases h
    refine ⟨hr,hl ▸ ht,.inl (hp.elim id id),fun h => by cases h⟩
  · next hu =>
    dsimp only at h
    split at h
    · obtain ⟨hr,hl,hp⟩ := recoverOldCluster_spec (n := Node.retarget {n with
        layout := upgradeFiles n.layout n.supervisor (targetName n.supervisor toMajor) toMajor a}
        (targetName n.supervisor toMajor) a.start) n.supervisor a
      cases h
      exact ⟨hr,hl ▸ ht,hp,fun h => by cases h⟩
    · next hf =>
      cases h
      have hup : a.upgraded := by
        by_contra hno
        exact hu (by simp [hno])
      refine ⟨⟨rfl,rfl,rfl⟩,ht,.inr rfl,fun _ => ⟨rfl,dataDirMajor_upgradeFiles _ hup,?_⟩⟩
      by_contra hn
      have hn := Option.isNone_iff_eq_none.2 (Option.not_isSome_iff_eq_none.1 hn)
      exact hf (Bool.or_eq_true_iff.2 (.inr hn))

theorem apply_spec (a : ApplyAnswers) (h : runPrimaryPgUpgradeApply n toMajor a = (ok,n')) :
    ok = false ∧ n' = n ∨ Applied n toMajor ok n' ∧
      ∃ fromMajor, dataDirMajor n.layout n.supervisor = some fromMajor ∧ toMajor.val = fromMajor.val+1 := by
  rw [runPrimaryPgUpgradeApply] at h
  split at h
  · cases h
    exact .inl ⟨rfl,rfl⟩
  · next fromMajor hfr =>
    dsimp only at h
    split at h
    · cases h
      exact .inl ⟨rfl,rfl⟩
    next ha =>
    have hto : toMajor.val = fromMajor.val+1 := by
      by_contra hne
      exact ha (by simp [hne])
    split at h
    · cases h
      exact .inl ⟨rfl,rfl⟩
    refine .inr ⟨?_,fromMajor,hfr,hto⟩
    generalize hn₁ : (if (n.layout.lookup (targetName n.supervisor toMajor)).isSome = true then
      {n with layout := remove n.layout (targetName n.supervisor toMajor) a.discard} else n) = n₁ at h
    obtain ⟨hr,hs,hf⟩ : SameRecord n n₁ ∧ n₁.supervisor = n.supervisor ∧
        Touches (targetName n.supervisor toMajor) toMajor n.layout n₁.layout := by
      rw [← hn₁]
      split
      · exact ⟨⟨rfl,rfl,rfl⟩,rfl,remove_touches a.discard⟩
      · exact ⟨⟨rfl,rfl,rfl⟩,rfl,Touches.refl⟩
    split at h
    · cases h
      exact ⟨hr,hf,.inl hs,fun h => by cases h⟩
    · have hst : n₁.stopped.supervisor = n.supervisor := hs
      rw [← hst] at h
      obtain ⟨hr',hf',hp,hsu⟩ := runApplyAfterStop_spec a h
      rw [hst] at hf' hp hsu
      refine ⟨?_,hf.trans hf',hp,hsu⟩
      exact ⟨hr'.1.trans hr.1,hr'.2.1.trans hr.2.1,hr'.2.2.trans hr.2.2⟩

theorem dataDirMajor_rename {layout : Layout} {src : Text} (dst : Text) {m : U32}
    (hs : dataDirMajor layout src = some m) :
    (∀ x, x ≠ src → x ≠ dst → dataDirMajor (rename layout src dst) x = dataDirMajor layout x) ∧
      ∀ x mx, dataDirMajor (rename layout src dst) x = some mx →
        mx = m ∨ dataDirMajor layout x = some mx := by
  obtain ⟨d,hd,hm⟩ := Option.bind_eq_some_iff.1 hs
  simp only [rename,hd,dataDirMajor_insert,dataDirMajor_erase,hm]
  refine ⟨fun x hx hx' => by rw [if_neg hx',if_neg hx],fun x mx h => ?_⟩
  split at h
  · exact .inl (Option.some.inj h).symm
  · split at h
    · cases h
    · exact .inr h

structure RolledBack (n : Node) (toMajor : U32) (ok : Bool) (n' : Node) : Prop where
  record : SameRecord n n'
  failure : ok = false → n'.layout = n.layout
  pointed : n'.supervisor = n.supervisor ∨ isCandidate n.supervisor n'.supervisor = true
  success : ok = true → ∃ m, dataDirMajor n.layout n'.supervisor = some m ∧ m < toMajor ∧
    dataDirMajor n'.layout n'.supervisor = some m ∧
    ∀ x mx, mx < toMajor → dataDirMajor n'.layout x = some mx → dataDirMajor n.layout x = some mx

theorem rollback_spec (a : RollbackAnswers) (h : rollbackLocal n toMajor a = (ok,n')) :
    RolledBack n toMajor ok n' := by
  have hr : (false,n) = (ok,n') → RolledBack n toMajor ok n' := by
    intro h
    cases h
    exact ⟨⟨rfl,rfl,rfl⟩,fun _ => rfl,.inl rfl,fun h => by cases h⟩
  rw [rollbackLocal] at h
  split at h
  · exact hr h
  next site hs =>
  obtain ⟨hold,hnw,-⟩ := probe_eq_some hs
  split at h
  · next old fromMajor holdDir ho =>
    obtain ⟨m,hm,hc,hma,hlt⟩ := hold old holdDir
    cases ho.symm.trans hm
    split at h
    · rw [rollbackOnto] at h
      split at h
      · exact hr h
      dsimp only at h
      have hf : (false,n.stopped.retarget old a.start) = (ok,n') → RolledBack n toMajor ok n' := by
        intro h
        cases h
        exact ⟨⟨rfl,rfl,rfl⟩,fun _ => rfl,.inr hc,fun h => by cases h⟩
      split at h
      · exact hf h
      split at h
      · cases h
        exact ⟨⟨rfl,rfl,rfl⟩,fun h => (by cases h),.inr hc,
          fun _ => ⟨fromMajor,hma,hlt,hma,fun x mx _ h => h⟩⟩
      · next new epochSecs hne _ =>
        split at h
        · exact hf h
        · next hfr =>
          cases h
          have hn := hnw new hne
          obtain ⟨hot,ha⟩ := dataDirMajor_rename (discardedName new epochSecs) hn
          have holdNew : old ≠ new := by
            rintro rfl
            exact absurd (Option.some.inj (hma.symm.trans hn)) (ne_of_lt hlt)
          have hol : old ≠ discardedName new epochSecs := by
            rintro rfl
            obtain ⟨d,hd,hv⟩ := Option.bind_eq_some_iff.1 hma
            obtain ⟨raw,hra,-⟩ := Option.bind_eq_some_iff.1 hv
            refine hfr ((Option.any_eq_true _ _).2 ⟨d,hd,?_⟩)
            rw [hra]
            rfl
          refine ⟨⟨rfl,rfl,rfl⟩,fun h => (by cases h),.inr hc,
            fun _ => ⟨fromMajor,hma,hlt,(hot old holdNew hol).trans hma,fun x mx hmx hx => ?_⟩⟩
          rcases ha x mx hx with rfl | h
          · exact absurd hmx (lt_irrefl _)
          · exact h
      · exact hf h
    · exact hr h
  · exact hr h

end Requests

section Anchor
variable {n n' : Node} {toMajor : U32}

theorem isCandidate_congr {dir dir' x : Text} (hb : upgradeSiteBaseName dir' = upgradeSiteBaseName dir)
    (h : isCandidate dir' x) : isCandidate dir x := by
  rw [isCandidate_iff,hb] at h
  exact isCandidate_iff.2 h

theorem isCandidate_self (name : Text) : isCandidate name name := isCandidate_iff.2 (sibling_self name)

theorem Anchored.keep (hn : Anchored n) (hc : upgradeSiteBaseName n'.configured = upgradeSiteBaseName n.configured)
    (hs : upgradeSiteBaseName n'.supervisor = upgradeSiteBaseName n.configured)
    (hr : n'.upgradedFrom = n.upgradedFrom ∧ n'.confirmed = n.confirmed)
    (ho : ∀ x, Older n'.layout n'.configured x → Older n.layout n.configured x) : Anchored n' := by
  refine ⟨?_,hs.trans hc.symm,fun x hx => ?_⟩
  · rw [hc]
    exact hn.base
  · rw [hr.1,hr.2]
    exact hn.older x (ho x hx)

theorem anchored_apply (hn : Anchored n) (a : ApplyAnswers) (hme : meets n (.apply toMajor a)) :
    Anchored (postgresUpgradeApply n toMajor a) := by
  obtain ⟨hag,ht,hno⟩ := hme
  rw [postgresUpgradeApply]
  split
  · exact hn
  split
  · next n' hr =>
    rcases apply_spec a hr with ⟨hok,-⟩ | ⟨ha,fromMajor,hf,hto⟩
    · cases hok
    obtain ⟨hp,hma,hpr⟩ := ha.success rfl
    have hb : upgradeSiteBaseName n'.supervisor = upgradeSiteBaseName n.supervisor := by
      rw [hp]
      exact upgradeSiteBaseName_targetName _ _
    refine ⟨?_,rfl,?_⟩
    · show upgradeSiteBaseName (upgradeSiteBaseName n'.supervisor) = upgradeSiteBaseName n'.supervisor
      rw [hb,← hag]
      exact hn.base
    · rintro x ⟨hc,m,mx,hm,hmx,hlt⟩
      cases hm.symm.trans hma
      -- the target has its own major, so this is another directory, and it was there before
      have hx : x ≠ targetName n.supervisor toMajor := by
        rintro rfl
        rw [← hp] at hmx
        exact absurd (Option.some.inj (hmx.symm.trans hma)) (ne_of_lt hlt)
      have hmx' := (ha.files.others x hx).symm.trans hmx
      have hf' := (ha.files.others n.supervisor ht.symm).trans hf
      rcases lt_or_ge mx fromMajor with hbe | hge
      · exact absurd ⟨isCandidate_congr hb hc,fromMajor,mx,hf,hmx',hbe⟩ (hno x)
      · have hs : mx = fromMajor := by
          apply Fin.ext
          have := Fin.lt_def.1 hlt
          have := Fin.le_def.1 hge
          omega
        subst hs
        obtain ⟨site,hsi⟩ := Option.isSome_iff_exists.1 hpr
        have hca := isCandidate_congr hb.symm (isCandidate_self n.supervisor)
        have hu := (probe_eq_some hsi).2.2 n.supervisor x mx hca hc hf' hmx
        exact ⟨congrArg some hu,rfl⟩
  · next n' hr =>
    rcases apply_spec a hr with ⟨-,rfl⟩ | ⟨ha,fromMajor,hf,hto⟩
    · exact hn
    obtain ⟨hco,hre⟩ := ha.record
    refine hn.keep (congrArg _ hco) ?_ hre ?_
    · rw [hag]
      rcases ha.pointed with h | h
      · rw [h]
      · rw [h]
        exact upgradeSiteBaseName_targetName _ _
    · rintro x ⟨hc,m,mx,hm,hmx,hlt⟩
      rw [hco,hag] at hc hm
      have hm' := (ha.files.others n.supervisor ht.symm).symm.trans hm
      refine absurd ⟨hc,m,mx,hm',?_,hlt⟩ (hno x)
      cases hf.symm.trans hm'
      by_cases hx : x = targetName n.supervisor toMajor
      · subst hx
        rcases ha.files.target mx hmx with rfl | h
        · have := Fin.lt_def.1 hlt
          omega
        · exact h
      · exact (ha.files.others x hx).symm.trans hmx

theorem anchored_rollback (hn : Anchored n) (a : RollbackAnswers) (hme : meets n (.rollback toMajor a)) :
    Anchored (postgresUpgradeRollback n toMajor a) := by
  obtain ⟨m,hm,hle⟩ := hme
  rw [postgresUpgradeRollback]
  split
  · exact hn
  have hb : ∀ {n' : Node}, n'.supervisor = n.supervisor ∨ isCandidate n.supervisor n'.supervisor →
      upgradeSiteBaseName n'.supervisor = upgradeSiteBaseName n.configured := by
    intro n' hp
    rcases hp with h | h
    · rw [h]
      exact hn.same
    · rw [isCandidate_iff,hn.same] at h
      exact upgradeSiteBaseName_of_sibling hn.base h
  split
  · next n' hru =>
    have hr := rollback_spec a hru
    have hp := hb hr.pointed
    obtain ⟨o,ho,hol,ho',ha⟩ := hr.success rfl
    refine hn.keep hp hp hr.record.2 ?_
    rintro x ⟨hca,mo,mx,hmo,hmx,hlt⟩
    cases hmo.symm.trans ho'
    exact ⟨isCandidate_congr hp hca,m,mx,hm,ha x mx (hlt.trans hol) hmx,hlt.trans (hol.trans_le hle)⟩
  · next n' hru =>
    have hr := rollback_spec a hru
    obtain ⟨hc,hre⟩ := hr.record
    refine hn.keep (congrArg _ hc) (hb hr.pointed) hre fun x hx => ?_
    rwa [hc,hr.failure rfl] at hx

/-- What a confirm deletes is older than the configured directory. -/
theorem older_of_confirmVictim {x : Text} (h : confirmVictim n toMajor = some x) :
    Older n.layout n.configured x ∧ x ≠ n.configured := by
  simp only [confirmVictim,bind,Option.bind_eq_some_iff] at h
  obtain ⟨site,hs,old,hold,_,hl,heq⟩ := h
  cases heq
  have hl := (Option.guard_eq_some' _).1 hl
  obtain ⟨m,-,hc,hm,hlt⟩ := (probe_eq_some hs).1 x hold
  refine ⟨⟨hc,toMajor,m,hl,hm,hlt⟩,?_⟩
  rintro rfl
  exact absurd (Option.some.inj (hm.symm.trans hl)) (ne_of_lt hlt)

theorem anchored_confirm (hn : Anchored n) (a : ConfirmAnswers) :
    Anchored (postgresUpgradeConfirm n toMajor a) := by
  rw [postgresUpgradeConfirm]
  split
  · exact hn
  split
  · exact hn
  next old hv =>
  have hk : ∀ x, Older (remove n.layout old a.removal) n.configured x → Older n.layout n.configured x := by
    rintro x ⟨hc,m,mx,hm,hmx,hlt⟩
    exact ⟨hc,m,mx,dataDirMajor_of_remove hm,dataDirMajor_of_remove hmx,hlt⟩
  split
  · next hg =>
    refine ⟨hn.base,hn.same,fun x hx => ?_⟩
    cases (hn.older old (older_of_confirmVictim hv).1).1.symm.trans (hn.older x (hk x hx)).1
    obtain ⟨-,-,mx,-,hmx,-⟩ := hx
    rw [hg,remove,dataDirMajor_erase,if_pos rfl] at hmx
    cases hmx
  · exact hn.keep rfl hn.same ⟨rfl,rfl⟩ hk

theorem anchored_step (hn : Anchored n) {r : Request} (hm : meets n r) (h : step n r = some n') :
    Anchored n' := by
  cases r with
  | apply toMajor a =>
    cases h
    exact anchored_apply hn a hm
  | rollback toMajor a =>
    cases h
    exact anchored_rollback hn a hm
  | confirm toMajor a =>
    cases h
    exact anchored_confirm hn a

/-- Along every run that is held to `meets`, a confirm deletes at most the directory that the last
successful apply upgraded from, which no confirm has deleted yet, and never one that the supervisor is
pointed at or that a postmaster runs on. -/
theorem confirm_deletes_only_anchor {start : Node} (hstart : Anchored start) {requests : List Request}
    {toMajor : U32} {a : ConfirmAnswers}
    (hmeets : Guarded step meets start (requests++[.confirm toMajor a]))
    (hrun : run step start requests = some n) {x : Text} (hx : confirmVictim n toMajor = some x) :
    n.upgradedFrom = some x ∧ n.confirmed = false ∧ x ≠ n.supervisor ∧ x ∉ n.running := by
  obtain ⟨hb,hl⟩ := (guarded_append start requests _).1 hmeets
  have hn : Anchored n := run_invariant_guarded (fun n r n' hn hr h => anchored_step hn hr h) hstart hb hrun
  obtain ⟨ha,hru⟩ := (hl n hrun).1
  obtain ⟨holder,hne⟩ := older_of_confirmVictim hx
  obtain ⟨hu,hc⟩ := hn.older x holder
  have hs : x ≠ n.supervisor := ha ▸ hne
  exact ⟨hu,hc,hs,fun hm => hs (hru x hm)⟩

end Anchor

section Sample

def dataDir : Text := "data".toList

def sampleDir (version : String) : Dir := ⟨some version.toList,true⟩

def sampleNode (layout : Layout) : Node := ⟨layout,dataDir,dataDir,[dataDir],false,none,false⟩

def soleNode : Node := sampleNode (AList.singleton dataDir (sampleDir "16\n"))

def crowdedNode : Node :=
  sampleNode ((AList.singleton dataDir (sampleDir "16\n")).insert "data_15".toList (sampleDir "15\n"))

def applied : ApplyAnswers := ⟨true,true,.gone,true,true,none,true,false,.up,true,true,.up⟩

def confirmedAnswers : ConfirmAnswers := ⟨true,.gone,true⟩

/-- The old server is started, and does not take a write within the settle window. -/
def rollbackFailed : RollbackAnswers := ⟨true,true,.up,false,none,true⟩

theorem anchored_soleNode : Anchored soleNode := by
  refine ⟨by decide +kernel,rfl,?_⟩
  rintro x ⟨hc,m,mx,hm,hmx,hlt⟩
  by_cases hx : x = dataDir
  · subst hx
    cases hm.symm.trans hmx
    exact absurd hlt (lt_irrefl _)
  · have hn : dataDirMajor soleNode.layout x = none := by
      have ho : x ∉ soleNode.layout := by
        rw [AList.mem_keys]
        exact fun hme => hx (mem_singleton.1 hme)
      rw [dataDirMajor,AList.lookup_eq_none.2 ho]
      rfl
    cases hn.symm.trans hmx

theorem sole_anchor_confirmed :
    ∃ n, run step soleNode [.apply 17 applied] = some n ∧ confirmVictim n 17 = some dataDir ∧
      n.upgradedFrom = some dataDir ∧ dataDir ≠ n.supervisor ∧ dataDir ∉ n.running := by
  have hst := anchored_soleNode
  have ha : meets soleNode (.apply 17 applied) := by
    refine ⟨rfl,by decide +kernel,fun x hx => ?_⟩
    cases (hst.older x hx).1
  have hf : (postgresUpgradeApply soleNode 17 applied).configured =
      (postgresUpgradeApply soleNode 17 applied).supervisor ∧
      (∀ d ∈ (postgresUpgradeApply soleNode 17 applied).running,
        d = (postgresUpgradeApply soleNode 17 applied).supervisor) ∧
      confirmVictim (postgresUpgradeApply soleNode 17 applied) 17 = some dataDir := by decide +kernel
  obtain ⟨hag,hr,hv⟩ := hf
  have hm : Guarded step meets soleNode ([.apply 17 applied]++[.confirm 17 confirmedAnswers]) := by
    refine ⟨ha,fun n hn => ⟨?_,fun _ _ => trivial⟩⟩
    cases hn
    exact ⟨hag,hr⟩
  obtain ⟨hu,-,hs,hru⟩ := confirm_deletes_only_anchor hst hm rfl hv
  exact ⟨_,rfl,hv,hu,hs,hru⟩

/-- After a rollback that fails once it has started the old server, a confirm deletes the directory that
server runs on; and a second confirm goes on to the directory of an older major. -/
theorem confirm_deletes_running :
    (run step soleNode [.apply 17 applied,.rollback 17 rollbackFailed]).any (fun n =>
      confirmVictim n 17 = some dataDir ∧ n.supervisor = dataDir ∧ dataDir ∈ n.running) = true ∧
    (run step crowdedNode [.apply 17 applied,.confirm 17 confirmedAnswers]).any (fun n =>
      n.confirmed ∧ n.upgradedFrom = some dataDir ∧ confirmVictim n 17 = some "data_15".toList) = true := by
  constructor
  · decide +kernel
  · decide +kernel

end Sample

end AnchorConfirm
end PgBattery
