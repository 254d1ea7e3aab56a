import PgBattery.Following

/-! What a rewind that did not succeed says of the directory it leaves. A run of `pg_rewind` is known by
its exit status and by what it printed; whether it had begun to modify the directory is the world's. -/
namespace PgBattery
namespace HalfRewound
open SqlReply Rewind Following Interaction TransitionSystem List Program

/-- A reply. `begun` says of a run of `pg_rewind` that it had begun to modify the directory. -/
structure Event where
  reply : Reply
  begun : Bool := false

def realRun : Op → Bool
  | .pgRewind dryRun => !dryRun
  | .within o => realRun o
  | _ => false

def Event.spawned (e : Event) : Bool :=
  match e.reply with
  | .ran (.spawnFailed _) => false
  | _ => true

/-- The world is whether the directory has been modified. Only a process that was spawned modifies it. -/
def answer (modified : Bool) (o : Op) (e : Event) : Option (Ans o × Bool) :=
  (e.reply.answer o).map fun x => (x,modified || realRun o && e.spawned && e.begun)

/-- A run that fails after it has begun to modify the directory prints one of `texts`. -/
def prints (texts : Set Text) (_ : Bool) (o : Op) (e : Event) : Prop :=
  realRun o = true → e.begun = true → ∀ stderr, e.reply = .ran (.exited false stderr) → stderr ∈ texts

def Condemned (e : Error) : Prop :=
  (∀ detail, e ≠ .rewindFailed true detail) ∧ rewindRecovery e ≠ .restartInPlace

theorem condemned_of_reprovision {e : Error} (h : rewindRecovery e = .reprovision) : Condemned e := by
  refine ⟨?_,by rw [h]; decide⟩
  rintro detail rfl
  cases h

/-- Read as another cluster's directory, or not as a failure before the copy. -/
def FailsClosed (stderr : Text) : Prop :=
  foreignLineage stderr = true ∨ pgRewindFailureIsPreCopy stderr = false

theorem FailsClosed.classify_ne {stderr : Text} (h : FailsClosed stderr) :
    classifyPgRewindFailure stderr ≠ .retryable := by
  intro hr
  rcases h with hf | ht
  · have hte : classifyPgRewindFailure stderr = .terminal := by
      rw [classifyPgRewindFailure]
      exact if_pos (by rw [foreignLineage] at hf; rw [hf,Bool.or_true])
    rw [hte] at hr
    cases hr
  · rw [pgRewindFailureIsPreCopy,hr] at ht
    cases ht

theorem FailsClosed.reprovision {stderr : Text} (h : FailsClosed stderr) (sourceAddr : Text) :
    rewindRecovery (rewindFailureError stderr sourceAddr false) = .reprovision := by
  rw [rewindFailureError]
  split
  · rfl
  · next hn =>
    rw [Bool.false_or,h.resolve_left hn]
    rfl

section Runs
variable {texts : Set Text} {w : Bool}

theorem answer_eq_some {o : Op} {e : Event} {x : Ans o} {w' : Bool} (h : answer w o e = some (x,w')) :
    e.reply.answer o = some x ∧ w' = (w || realRun o && e.spawned && e.begun) := by
  obtain ⟨y,hy,hxy⟩ := Option.map_eq_some_iff.1 h
  cases hxy
  exact ⟨hy,rfl⟩

/-- Whatever is printed is of `texts`, the program ends with `post`. -/
abbrev Holds {α : Type} (texts : Set Text) (post : α → Bool → Prop) (p : Asking α) (w : Bool) : Prop :=
  p.Keeps answer (prints texts) (fun _ => True) post w

/-- A directory that was modified is not given back as one to start. -/
def Sound {α : Type} (r : Option (Except Error α)) (w : Bool) : Prop :=
  w = true → ∀ e, r = some (.error e) → rewindRecovery e = .reprovision

theorem keeps_untouched {α : Type} {p : Asking α} (hp : p.Only (realRun · = false)) :
    Holds texts (fun _ w => w = false) p false := by
  refine keeps_of_only (P := (· = false)) ?_ hp rfl
  rintro w o e x w' ho rfl - he
  obtain ⟨-,rfl⟩ := answer_eq_some he
  exact ⟨trivial,by rw [ho]; rfl⟩

theorem keeps_timeout_untouched {α : Type} {p : Asking α} (hp : p.Only (realRun · = false)) :
    Holds texts (fun _ w => w = false) (timeout p) false :=
  keeps_untouched (only_timeout (fun _ h => h) hp)

theorem keeps_timeout_ensureStandbySignal :
    Holds texts Sound (timeout ensureStandbySignal.run) w := by
  refine keeps_timeout_bind (keeps_timeout_lift
    (@keeps_timeout_ask _ _ _ _ _ (.act .ensureStandbySignal) _ _ ?_))
  intro e (x : Option (Except Text Unit)) w' _ _
  refine ⟨trivial,?_⟩
  rcases x with _ | detail | _
  · exact fun _ e h => nomatch h
  · intro _ e h
    cases h
    rfl
  · exact fun _ e h => nomatch h

/-- One run: either the directory is still untouched, or the run ended in a way that cannot be read as a
failure before the copy. -/
def AttemptLeft (r : Option (Except Error (Bool × Text))) (w : Bool) : Prop :=
  w = false ∨ match r with
    | none => True
    | some (.error e) => rewindRecovery e = .reprovision
    | some (.ok (success,stderr)) => success = true ∨ FailsClosed stderr

theorem keeps_timeout_attempt (h : ∀ stderr ∈ texts, FailsClosed stderr) :
    Holds texts AttemptLeft (timeout (runPgRewindAttempt false).run) false := by
  refine keeps_timeout_bind (keeps_timeout_lift (@keeps_timeout_ask _ _ _ _ _ (.pgRewind false) _ _ ?_))
  intro e (x : Option Attempt) w' hg he
  obtain ⟨hx,rfl⟩ := answer_eq_some he
  refine ⟨trivial,?_⟩
  rcases reply_of_answer_within hx with ⟨-,rfl⟩ | ⟨y,rfl,hy⟩
  · exact .inr trivial
  · have hr := reply_of_answer_pgRewind hy
    cases y with
    | spawnFailed error =>
      refine .inl ?_
      simp [Event.spawned,hr]
    | unwaitable error => exact .inr rfl
    | overran => exact .inr rfl
    | exited success stderr =>
      cases success with
      | true => exact .inr (.inl rfl)
      | false =>
        cases hb : e.begun with
        | false => exact .inl (by simp)
        | true => exact .inr (.inr (h stderr (hg rfl hb stderr hr)))

/-- The runs and their retries, by induction on how many are left: a retry starts from a directory that is
still untouched. -/
theorem keeps_timeout_rewindRuns (h : ∀ stderr ∈ texts, FailsClosed stderr) (sourceAddr : Text)
    (left : ℕ) : Holds texts Sound (timeout (rewindRuns sourceAddr left).run) false := by
  induction left with
  | zero => exact fun hw => nomatch hw
  | succ left ih =>
    refine keeps_timeout_bind ((keeps_timeout_attempt h).mono ?_)
    rintro (_ | e | ⟨success,stderr⟩) w hw
    · exact fun _ e h => nomatch h
    · intro hm e' he
      cases he
      exact hw.resolve_left (by rw [hm]; decide)
    · dsimp only
      split
      · exact keeps_timeout_ensureStandbySignal
      · next hf =>
        split
        · next hr =>
          have hu : w = false := hw.resolve_right fun hl =>
            (hl.resolve_left hf).classify_ne hr.2
          subst hu
          refine keeps_timeout_bind ((keeps_timeout_untouched ?_).mono ?_)
          · exact only_lift (only_ask rfl)
          · rintro (_ | e | _) w rfl
            · exact fun hw => nomatch hw
            · exact fun hw => nomatch hw
            · exact ih
        · intro hm e he
          cases he
          have hl := hw.resolve_left (by rw [hm]; decide)
          exact (hl.resolve_left hf).reprovision sourceAddr

theorem keeps_timeout_rewindWithinBudget (h : ∀ stderr ∈ texts, FailsClosed stderr) (sourceAddr : Text)
    (read : Option U64) (budget : RewindBudget) :
    Holds texts Sound (timeout (rewindWithinBudget sourceAddr read budget).run) false := by
  refine keeps_timeout_bind ((keeps_timeout_untouched (only_waitForRewindSource rfl)).mono ?_)
  rintro (_ | e | _) w rfl
  · exact fun hw => nomatch hw
  · exact fun hw => nomatch hw
  · refine keeps_timeout_bind ((keeps_timeout_untouched (only_runPgRewindAttempt rfl)).mono ?_)
    rintro (_ | e | ⟨success,output⟩) w rfl
    · exact fun hw => nomatch hw
    · exact fun hw => nomatch hw
    · cases success with
      | false => exact fun hw => nomatch hw
      | true =>
        refine keeps_timeout_bind ((keeps_timeout_untouched
          (@only_checkRewindDiscard (realRun · = false) rfl read (parseRewindPlan output) budget)).mono ?_)
        rintro (_ | e | _) w rfl
        · exact fun hw => nomatch hw
        · exact fun hw => nomatch hw
        · exact keeps_timeout_rewindRuns h sourceAddr pgRewindMaxRetries

theorem keeps_runPgRewind (h : ∀ stderr ∈ texts, FailsClosed stderr) (sourceAddr : Text)
    (read : Option U64) (budget : RewindBudget) :
    Holds texts (fun r w => w → ∀ e, r = .error e → rewindRecovery e = .reprovision)
      (runPgRewind sourceAddr read budget).run false := by
  refine keeps_bind ((keeps_timeout_rewindWithinBudget h sourceAddr read budget).mono ?_)
  rintro (_ | r) w hr
  · intro _ e he
    cases he
    rfl
  · intro hw e he
    exact hr hw e (congrArg some he)

end Runs

/-- Where a run that fails after it has begun to modify the directory prints one of `texts`, a rewind that
modified the directory and did not succeed is never answered for as one that left it intact. -/
def NeverTakenForIntact (texts : Set Text) : Prop :=
  ∀ sourceAddr read budget es e,
    Guarded (Program.step answer) (Program.asked (prints texts))
      (false,(runPgRewind sourceAddr read budget).run) es →
    run (Program.step answer) (false,(runPgRewind sourceAddr read budget).run) es =
      some (true,.pure (.error e)) → Condemned e

section Misread
variable (sourceAddr stderr : Text)

def passed : List Event :=
  [⟨.done (.ok ()),false⟩,⟨.ran (.exited true "no rewind required".toList),false⟩]

def failed : Event := ⟨.ran (.exited false stderr),true⟩

def unspawned : List Event := [⟨.waited,false⟩,⟨.ran (.spawnFailed []),false⟩]

def rewinding : Bool × Asking (Except Error Unit) :=
  (false,(runPgRewind sourceAddr (some 0) .unbounded).run)

def afterFailed : Fallible Unit :=
  if 0 < 9 ∧ classifyPgRewindFailure stderr = .retryable then do
    let _ : Unit ← ask .retryDelay
    rewindRuns sourceAddr 9
  else throw (rewindFailureError stderr sourceAddr false)

def withinBudget (p : Fallible Unit) : Asking (Except Error Unit) := do
  match ← timeout p.run with
  | some r => return r
  | none => return .error (rewindCompromised "pg_rewind exceeded 300s budget".toList)

theorem run_failed (es : List Event) :
    run (step answer) (rewinding sourceAddr) (passed++failed stderr::es) =
      run (step answer) (true,withinBudget (afterFailed sourceAddr stderr)) es := rfl

variable {stderr}

/-- A text that is read as a failure before the copy has the directory given back as intact: at once, or
when the next run does not come about. -/
theorem exists_run_intact (h : ¬FailsClosed stderr) : ∃ es detail, (∀ e ∈ es, e.begun = false) ∧
    run (step answer) (rewinding sourceAddr) (passed++failed stderr::es) =
      some (true,.pure (.error (.rewindFailed true detail))) := by
  obtain ⟨hf,hp⟩ := not_or.1 h
  rw [Bool.not_eq_true] at hf
  rw [Bool.not_eq_false] at hp
  by_cases hr : classifyPgRewindFailure stderr = .retryable
  · refine ⟨unspawned,"could not spawn pg_rewind: ".toList++[],by decide,?_⟩
    rw [run_failed,afterFailed,if_pos ⟨by decide,hr⟩]
    rfl
  · refine ⟨[],trim stderr,by simp,?_⟩
    rw [run_failed,afterFailed,if_neg fun hb => hr hb.2,rewindFailureError,hf,hp]
    rfl

end Misread

/-- A half-rewound directory is never taken for an intact one exactly when no run that had begun to
modify it can fail with a text that is read as a failure before the copy. -/
theorem neverTakenForIntact_iff (texts : Set Text) :
    NeverTakenForIntact texts ↔ ∀ stderr ∈ texts, FailsClosed stderr := by
  constructor
  · intro hn stderr hm
    by_contra ho
    obtain ⟨es,detail,hes,hr⟩ := exists_run_intact [] ho
    have hgu : ∀ e ∈ passed++failed stderr::es, ∀ c : Bool × Asking (Except Error Unit),
        asked (prints texts) c e := by
      rintro e he ⟨w,_ | ⟨o,k⟩⟩
      · trivial
      · intro _ hb stderr' hre
        rcases mem_append.1 he with hp | hrs
        · have hno : ∀ e ∈ passed, e.begun = false := by decide
          rw [hno e hp] at hb
          cases hb
        · rcases mem_cons.1 hrs with rfl | he'
          · cases hre
            exact hm
          · rw [hes e he'] at hb
            cases hb
    exact (hn [] (some 0) .unbounded _ _ (guarded_of_forall hgu _) hr).1 detail rfl
  · intro h sourceAddr read budget es e hg hr
    exact condemned_of_reprovision
      (run_ends (keeps_runPgRewind h sourceAddr read budget) trivial hg hr rfl e rfl)

def ended : Bool × Asking (Except Error Unit) → Option (Bool × Error)
  | (w,.pure (.error e)) => some (w,e)
  | _ => none

/-- The source cannot read a file it listed; the file's name is part of the text. -/
def unreadable : Text :=
  ("pg_rewind: error: unexpected result while fetching remote files: ERROR:  could not open file " ++
    "\"log/connection to server.log\" for reading: Permission denied").toList

def refused : Text :=
  ("pg_rewind: error: connection to server at \"10.0.0.2\", port 5432 failed: Connection refused").toList

/-- The copy dies, is read as a connection that was never made, and is tried again on what it left; the
leader being gone by then, the directory is called intact and started. -/
theorem half_rewound_taken_for_intact :
    ((run (step answer) (rewinding "10.0.0.2:5432".toList) (passed++failed unreadable::
      (List.replicate 9 [(⟨.waited,false⟩ : Event),⟨.ran (.exited false refused),false⟩]).flatten)).bind
        ended) = some (true,.rewindFailed true refused) ∧
      rewindRecovery (.rewindFailed true refused) = .restartInPlace ∧ ¬FailsClosed unreadable := by
  refine ⟨by decide +kernel,rfl,?_⟩
  rw [FailsClosed]
  decide +kernel

end HalfRewound
end PgBattery
