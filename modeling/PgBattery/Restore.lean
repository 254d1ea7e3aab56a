import PgBattery.Following

/-! The paths that put a data directory in place without following a leader: a full restore from a
backup, what a boot makes of one that was interrupted, and the boot itself. -/
namespace PgBattery
namespace Restore
open SqlReply Rewind Interaction Following

def look (q : Look) : Asking Bool := ask (.look q)

def whenever (b : Bool) (p : Fallible Unit) : Fallible Unit := if b then p else pure ()

/-- A staging copy that stays behind only costs space. -/
def removeStagedPreRestore : Fallible Unit := do
  let _ ← caught (act .removeStaged)

def rollbackFailedRestore (staged : Bool) : Fallible Unit := do
  let dataDirExists ← look .pgdataExists
  whenever dataDirExists (do let _ ← caught (act .removeDataDir))
  whenever staged (act .renameStagedBack)

def restoreFullBackup : Fallible Unit := do
  act .prepareRestore
  match (← ask .stageExistingDataDir : Except Text Bool) with
  | .error e => throw (.postgres e)
  | .ok staged =>
    act .createDataDir
    match ← caught (act .extractBackup) with
    | .ok () => whenever staged removeStagedPreRestore
    | .error restoreErr =>
      rollbackFailedRestore staged
      throw restoreErr

def executeFullRestore : Fallible Unit := do
  if ← look .leadsRaft then
    throw (.postgres ("Node became the leader after the restore was accepted; aborting to avoid " ++
      "overwriting the live primary's data directory.").toList)
  else
    stop
    match ← caught restoreFullBackup with
    | .ok () =>
      ensureStandbySignal
      start
    | .error restoreErr =>
      start
      throw restoreErr

def recoverInterruptedRestore : Fallible Unit := do
  match (← ask .findPreRestoreStaging : Except Text Bool) with
  | .error e => throw (.postgres e)
  | .ok false => pure ()
  | .ok true =>
    if ← look .pgdataLooksValid then pure ()
    else
      let dataDirExists ← look .pgdataExists
      whenever dataDirExists (act .removeDataDir)
      act .renameStagedBack

def startStandbyOrDeferRepair : Fallible Unit := do
  let _ ← caught start

def startSupervisorForMode (bootstrap : Bool) : Fallible Unit := do
  recoverInterruptedRestore
  let hasExistingData ← look .pgVersion
  let isStandby ← look .standbySignal
  if hasExistingData && isStandby then startStandbyOrDeferRepair
  else if bootstrap then
    if hasExistingData then start
    else if ← look .peerListsThisNode then pure ()
    else
      act .initDb
      start
  else if hasExistingData then start
  else throw (.postgres "No PostgreSQL data found".toList)

end Restore
end PgBattery
