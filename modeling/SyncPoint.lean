import SyncPoint.Flags.Reader
import SyncPoint.Scenario.Host
import SyncPoint.Scenario.Scripted
import SyncPoint.Proofs.Atomicity
import SyncPoint.Proofs.BindingContract
import SyncPoint.Proofs.Capture
import SyncPoint.Proofs.Confluence
import SyncPoint.Proofs.CrossQueue
import SyncPoint.Proofs.ElapsedContract
import SyncPoint.Proofs.ElapsedOrder
import SyncPoint.Proofs.ExactlyOnce
import SyncPoint.Proofs.HappensBefore
import SyncPoint.Proofs.HeldUp
import SyncPoint.Proofs.LockOrder
import SyncPoint.Proofs.Measurability
import SyncPoint.Proofs.Progress
import SyncPoint.Proofs.QueueContract
import SyncPoint.Proofs.RecordedElapsed
import SyncPoint.Proofs.Shutdown
import SyncPoint.Proofs.TableHistory
import SyncPoint.Proofs.Host.Accounting
import SyncPoint.Proofs.ClockAccounting
import SyncPoint.Proofs.ElapsedReversal
import SyncPoint.Proofs.Host.Containment
import SyncPoint.Proofs.Machine.Containment
import SyncPoint.Proofs.Machine.Releasing
import SyncPoint.Proofs.PanicContainment
import SyncPoint.Proofs.Machine.Binders
import SyncPoint.Proofs.BindingStability
import SyncPoint.Proofs.Along
import SyncPoint.Proofs.Asking
import SyncPoint.Proofs.WaitingDiscipline
import SyncPoint.Proofs.Machine.Relying
import SyncPoint.Proofs.RepeatedRecording
import SyncPoint.Proofs.Threads.Basic
import SyncPoint.Proofs.Threads.Shadowing
import SyncPoint.Proofs.Threads.Mirroring
import SyncPoint.Proofs.Threads.Sparing
import SyncPoint.Proofs.TableTransparency
import SyncPoint.Proofs.CreationFlags
import SyncPoint.Proofs.Host.Gate
import SyncPoint.Proofs.Pausing
import SyncPoint.Proofs.Single.Value
import SyncPoint.Proofs.Single.Binary32
import SyncPoint.Proofs.Conversion
