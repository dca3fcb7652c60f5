import Logjet.Proofs.Failing
import Logjet.Spool.Proofs.Sizes
import Logjet.Spool.Proofs.Restart
import Logjet.Spool.Proofs.Fault
import Logjet.Proofs.WireLimit
import Logjet.Spool.Proofs.Retention
import Logjet.Daemon.Proofs.Ingest
import Logjet.Daemon.Proofs.Replay
import Logjet.Bridge.Proofs.Order
import Logjet.Bridge.Proofs.Stall
import Logjet.Bridge.Proofs.Net
import Logjet.Daemon.Proofs.Http
import Logjet.Ljx.Proofs.Emit
import Logjet.Bridge.Proofs.Response
import Logjet.Bridge.Proofs.Conserve
import Logjet.Ljx.Proofs.Input
import Logjet.Ljx.Proofs.Parallel
import Logjet.Ljx.Proofs.Tail
import Logjet.Proofs.Sync
import Logjet.Daemon.Proofs.Timestamp
import Logjet.Daemon.Proofs.Policy
import Logjet.Bridge.Proofs.State
import Logjet.Spool.Proofs.Prune
import Logjet.Proofs.Allocation
import Logjet.Ljx.Proofs.Checked
import Logjet.Proofs.Shape
import Logjet.Proofs.Scratch
import Logjet.Ljx.Proofs.Export
import Logjet.Ljcel.Proofs.Batch
import Logjet.Ljx.Proofs.Unpack
import Logjet.Ljx.Proofs.CanonJson
import Logjet.Ljx.Proofs.CanonFreetext
import Logjet.Ljx.Proofs.Canon
import Logjet.Ljx.Proofs.CollapseFull
import Logjet.Plugins.Proofs.Syslog
import Logjet.Plugins.Proofs.Timestamp
