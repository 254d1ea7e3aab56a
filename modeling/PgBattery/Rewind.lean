import PgBattery.Search
import PgBattery.SqlReply

/-! What `pg_rewind` says and what the code makes of it: the plan of a dry run, the error a failed run
stands for, the gate on what may be discarded and how a failed rewind is recovered. -/
namespace PgBattery
namespace Rewind
open SqlReply

section Texts

def occurs (needle s : Text) : Bool := (Search.split needle s).isSome

/-- `s.split(sep).nth(1)`. -/
def secondPiece (sep s : Text) : Option Text :=
  (Search.split sep s).map fun r => ((Search.split sep r.2).map Prod.fst).getD r.2

/-- `s.split_whitespace().next()`. -/
def firstWord (s : Text) : Option Text :=
  match (s.dropWhile whitespace).takeWhile (!whitespace ·) with
  | [] => none
  | word => some word

def toAsciiLower (c : Char) : Char := if 'A' ≤ c ∧ c ≤ 'Z' then Char.ofNat (c.toNat+32) else c

def parseLsnLocal (lsnStr : Text) : Option U64 := do
  let (upperHex,lowerHex) ← splitOnce '/' (trim lsnStr)
  let upper ← fromStrRadix upperHex
  let lower ← fromStrRadix lowerHex
  pure (joinHalves upper lower)

end Texts

section Plan

inductive RewindBudget
  | unbounded
  | bytes (limit : U64)
  deriving DecidableEq

inductive RewindPlan
  | diverged (fork : U64)
  | nothingToDiscard
  deriving DecidableEq

def parseRewindPlan (output : Text) : Option RewindPlan :=
  match secondPiece "servers diverged at WAL location ".toList output with
  | some rest => do
    let lsn ← firstWord rest
    (parseLsnLocal lsn).map .diverged
  | none => if occurs "no rewind required".toList output then some .nothingToDiscard else none

inductive RewindDecision
  | safe
  | withinTolerance (divergenceBytes : U64)
  | refuse (divergenceBytes : U64)
  deriving DecidableEq

def rewindDivergenceDecision (localEnd fork : U64) (budget : RewindBudget) : RewindDecision :=
  if localEnd ≤ fork then .safe
  else
    let divergenceBytes := localEnd-fork
    match budget with
    | .bytes limit =>
      if limit < divergenceBytes then .refuse divergenceBytes else .withinTolerance divergenceBytes
    | .unbounded => .withinTolerance divergenceBytes

/-- The budget covers `bytes` of discarded WAL. -/
def RewindBudget.covers (budget : RewindBudget) (bytes : ℕ) : Bool :=
  match budget with
  | .unbounded => true
  | .bytes limit => bytes ≤ limit.val

theorem covers_mono {budget : RewindBudget} {m n : ℕ} (hle : m ≤ n) (h : budget.covers n) :
    budget.covers m := by
  cases budget with
  | unbounded => rfl
  | bytes limit => exact decide_eq_true (hle.trans (of_decide_eq_true h))

/-- A tail the gate does not refuse is within the budget. -/
theorem covers_of_decision_ne_refuse {localEnd fork : U64} {budget : RewindBudget}
    (h : ∀ bytes, rewindDivergenceDecision localEnd fork budget ≠ .refuse bytes) :
    budget.covers (localEnd.val-fork.val) := by
  cases budget with
  | unbounded => rfl
  | bytes limit =>
    refine decide_eq_true ?_
    by_cases hle : localEnd ≤ fork
    · have hv := Fin.le_def.1 hle
      omega
    · have hs : (localEnd-fork).val = localEnd.val-fork.val := Fin.sub_val_of_le (le_of_not_ge hle)
      by_contra hlt
      refine h (localEnd-fork) ?_
      rw [rewindDivergenceDecision,if_neg hle]
      refine if_pos (Fin.lt_def.2 ?_)
      rw [hs]
      exact not_le.1 hlt

end Plan

section Failure

inductive Error
  | rewindDataLossRisk (localLsnBytes forkLsnBytes divergenceBytes thresholdBytes : U64)
  | rewindFailed (targetIntact : Bool) (detail : Text)
  | foreignDataDirectory (rewindSource detail : Text)
  | postgresRefusedToOpen (detail : Text)
  | postgres (detail : Text)
  deriving DecidableEq

inductive PreCopyOutcome
  | retryable
  | terminal
  | touched
  deriving DecidableEq

def rewindSameTimelineMarker : Text := "source and target cluster are on the same timeline".toList
def rewindForeignLineageMarker : Text := "are from different systems".toList

def retryableMarkers : List Text :=
  ["could not connect","connection to server","fe_sendauth","password authentication failed",
    "no pg_hba.conf entry","target server must be shut down cleanly",
    "could not fetch file list"].map String.toList

def classifyPgRewindFailure (stderr : Text) : PreCopyOutcome :=
  let lower := stderr.map toAsciiLower
  if occurs rewindSameTimelineMarker lower || occurs rewindForeignLineageMarker lower then .terminal
  else if retryableMarkers.any (occurs · lower) then .retryable
  else .touched

def pgRewindFailureIsPreCopy (stderr : Text) : Bool := classifyPgRewindFailure stderr ≠ .touched

def foreignLineage (stderr : Text) : Bool :=
  occurs rewindForeignLineageMarker (stderr.map toAsciiLower)

def rewindFailureError (stderr sourceAddr : Text) (dryRun : Bool) : Error :=
  if foreignLineage stderr then .foreignDataDirectory sourceAddr (trim stderr)
  else .rewindFailed (dryRun || pgRewindFailureIsPreCopy stderr) (trim stderr)

def rewindUntouched (detail : Text) : Error := .rewindFailed true detail
def rewindCompromised (detail : Text) : Error := .rewindFailed false detail

inductive RewindRecovery
  | restartInPlace
  | reprovision
  deriving DecidableEq

def rewindRecovery : Error → RewindRecovery
  | .rewindDataLossRisk .. => .restartInPlace
  | .rewindFailed true _ => .restartInPlace
  | _ => .reprovision

theorem foreignLineage_of_reprovision {stderr sourceAddr : Text}
    (h : rewindRecovery (rewindFailureError stderr sourceAddr true) = .reprovision) :
    foreignLineage stderr := by
  by_contra hn
  rw [rewindFailureError,if_neg hn] at h
  cases h

end Failure
end Rewind
end PgBattery
