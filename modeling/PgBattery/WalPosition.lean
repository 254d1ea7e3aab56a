import PgBattery.StateMachine
import PgBattery.History

/-! A node's write-ahead log, the position it reports of it in an election, and the gate a voter
puts on that position. -/
namespace PgBattery
namespace WalPosition
open StateMachine

instance : OrderBot U64 where
  bot := 0
  bot_le := Fin.zero_le

structure Record where
  lsn : U64
  id : ℕ
  deriving DecidableEq

abbrev Wal : Type := History Record.lsn

inductive OwnWal
  | at (lsn : U64)
  | empty
  | unknown
  deriving DecidableEq

def OwnWal.position : OwnWal → Option U64
  | .at lsn => some lsn
  | .empty | .unknown => none

def voteLsnGate (candidate : Option U64) (voter : OwnWal) (threshold : U64) : Except String Unit :=
  match voter,candidate with
  | .empty,_ => .ok ()
  | .unknown,_ => .error "this voter's own WAL position is unreadable"
  | .at _,none => .error "the candidate sent no WAL position"
  | .at own,some lsn =>
    if own ≤ U64.saturatingAdd lsn threshold then .ok ()
    else .error "the candidate is behind this voter's WAL beyond the threshold"

def voteLsnThresholdBytes (syncReplicationActive : Option Bool) : U64 :=
  if syncReplicationActive = some false then 16000000 else 0

/-- The fields of `pg_controldata` that say where a stopped directory's log ends. -/
structure ControlData where
  clusterState : Option String
  latestCheckpoint : Option U64
  minRecoveryEnd : Option U64
  deriving DecidableEq

def stoppedWalEnd (c : ControlData) : Option U64 :=
  if c.clusterState = some "shut down" ∨ c.clusterState = some "shut down in recovery" then
    c.latestCheckpoint.map fun checkpoint => max checkpoint (c.minRecoveryEnd.getD 0)
  else none

/-- What runs over a data directory: a primary, a standby with what it received since it started,
nothing after a clean stop, or nothing after a crash. -/
inductive Server
  | primary
  | standby (received : Option U64)
  | stopped (control : ControlData)
  | crashed

def Server.claimed : Server → Option U64
  | .standby received => received
  | .stopped control => stoppedWalEnd control
  | .primary | .crashed => none

/-- A data directory: its log, how far a standby replayed it, and its server; neither position is
past the log. -/
structure Directory where
  wal : Wal
  replayed : U64
  server : Server
  replayed_le : replayed ≤ wal.position
  claimed_le : ∀ lsn, server.claimed = some lsn → lsn ≤ wal.position

/-- The position a node finds for itself, `none` standing for no data directory. -/
def LocalWal.read : Option Directory → OwnWal
  | none => .empty
  | some d => match d.server with
    | .primary => .at d.wal.position
    | .standby received => .at (max (received.getD 0) d.replayed)
    | .stopped control => match stoppedWalEnd control with
      | some lsn => .at lsn
      | none => .unknown
    | .crashed => .unknown

theorem read_le {d : Directory} {lsn : U64} (h : LocalWal.read (some d) = .at lsn) :
    lsn ≤ d.wal.position := by
  have hc := d.claimed_le
  cases hs : d.server with
  | primary =>
    simp only [LocalWal.read,hs,OwnWal.at.injEq] at h
    exact h.ge
  | standby received =>
    simp only [LocalWal.read,hs,OwnWal.at.injEq] at h
    subst h
    refine max_le ?_ d.replayed_le
    cases received with
    | none => exact Fin.zero_le _
    | some lsn => exact hc lsn (by rw [hs]; rfl)
  | stopped control =>
    simp only [LocalWal.read,hs] at h
    cases he : stoppedWalEnd control with
    | none => simp [he] at h
    | some e =>
      simp only [he,OwnWal.at.injEq] at h
      subst h
      exact hc e (by rw [hs]; exact he)
  | crashed => simp [LocalWal.read,hs] at h

theorem le_of_voteLsnGate {candidate : Option U64} {own : U64}
    (h : (voteLsnGate candidate (.at own) 0).isOk) : ∃ lsn, candidate = some lsn ∧ own ≤ lsn := by
  cases candidate with
  | none => simp [voteLsnGate,Except.isOk,Except.toBool] at h
  | some lsn =>
    refine ⟨lsn,rfl,?_⟩
    have hz : U64.saturatingAdd lsn 0 = lsn := by
      apply Fin.ext
      rw [U64.val_saturatingAdd]
      have hlt := lsn.isLt
      simp only [Fin.val_zero]
      omega
    rw [voteLsnGate,hz] at h
    by_contra hno
    simp [hno,Except.isOk,Except.toBool] at h

/-- The same directory over a log that continues its own. -/
def Directory.extend (d : Directory) (w : Wal) (h : d.wal.entries <+: w.entries) : Directory where
  wal := w
  replayed := d.replayed
  server := d.server
  replayed_le := d.replayed_le.trans (History.position_mono h)
  claimed_le lsn hl := (d.claimed_le lsn hl).trans (History.position_mono h)

def Directory.streaming (w : Wal) (replayed : U64) (h : replayed ≤ w.position) : Directory where
  wal := w
  replayed := replayed
  server := .standby (some w.position)
  replayed_le := h
  claimed_le lsn hl := by
    cases hl
    exact le_rfl

/-- The control file a clean stop leaves: a primary ends with its shutdown checkpoint, a standby
records how far it replayed. -/
def Directory.stop (d : Directory) (checkpoint : U64) (h : checkpoint ≤ d.replayed) : Directory where
  wal := d.wal
  replayed := d.replayed
  server := match d.server with
    | .primary => .stopped ⟨some "shut down",some d.wal.position,none⟩
    | .standby _ => .stopped ⟨some "shut down in recovery",some checkpoint,some d.replayed⟩
    | .stopped control => .stopped control
    | .crashed => .crashed
  replayed_le := d.replayed_le
  claimed_le lsn hl := by
    have hc := d.claimed_le
    cases hs : d.server with
    | primary =>
      simp only [hs,Server.claimed,stoppedWalEnd,true_or,if_true,Option.map_some,Option.getD_none,
        Option.some.injEq] at hl
      subst hl
      exact max_le le_rfl (Fin.zero_le _)
    | standby received =>
      simp only [hs,Server.claimed,stoppedWalEnd,or_true,if_true,Option.map_some,Option.getD_some,
        Option.some.injEq] at hl
      subst hl
      exact (max_le h le_rfl).trans d.replayed_le
    | stopped control =>
      simp only [hs] at hl
      exact hc lsn (by rw [hs]; exact hl)
    | crashed =>
      simp only [hs] at hl
      cases hl

/-- Another server over the same log, with nothing received yet. -/
def Directory.serve (d : Directory) (server : Server) (h : server.claimed = none) : Directory where
  wal := d.wal
  replayed := d.replayed
  server := server
  replayed_le := d.replayed_le
  claimed_le lsn hl := by
    rw [h] at hl
    cases hl

/-- A standby's replay position moves, back to its restart point after a start. -/
def Directory.replay (d : Directory) (lsn : U64) (h : lsn ≤ d.wal.position) : Directory where
  wal := d.wal
  replayed := lsn
  server := d.server
  replayed_le := h
  claimed_le := d.claimed_le

/-- A directory made from another node's log, nothing of it replayed yet. -/
def Directory.made (w : Wal) : Directory where
  wal := w
  replayed := 0
  server := .standby none
  replayed_le := Fin.zero_le _
  claimed_le lsn hl := by cases hl

def Server.isPrimary : Server → Bool
  | .primary => true
  | .standby _ | .stopped _ | .crashed => false

def Server.isStandby : Server → Bool
  | .standby _ => true
  | .primary | .stopped _ | .crashed => false

end WalPosition
end PgBattery
