import PgBattery.Migration
import PgBattery.InstalledSnapshot
import PgBattery.DonorQuorum
import PgBattery.Election
import PgBattery.FrameCodec
import PgBattery.FenceTick
import PgBattery.SequenceHandoff
import PgBattery.LeaderlessStagger
import PgBattery.HalfRewound
import PgBattery.ManagedBlock
import PgBattery.FenceRoundTrip
import PgBattery.SupervisorSession
import PgBattery.TrackedSession
import PgBattery.SessionStartup
import PgBattery.Prefilter
import PgBattery.SessionState
import PgBattery.FeatureLevel
import PgBattery.SealedPosition
import PgBattery.SchemaAgreement
import PgBattery.ReverseCapture
import PgBattery.RaftWipe
import PgBattery.RewindGate
import PgBattery.StandbySignal
import PgBattery.SnapshotExact
import PgBattery.RestoredNotifications
import PgBattery.KeywordScan
import PgBattery.PromotionWatchdog
import PgBattery.WalsenderRefusal
import PgBattery.PostmasterLog
import PgBattery.NodeOperations
import PgBattery.LsnParsers
import PgBattery.SyncNames
import PgBattery.InterruptedRestore
import PgBattery.AnchorConfirm
import PgBattery.SingleWriter
import PgBattery.CutoverRecovery
