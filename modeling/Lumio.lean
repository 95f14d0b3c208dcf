import Lumio.Config.Backfill
import Lumio.Config.Windows
import Lumio.Control.Attempts
import Lumio.Control.Decoders
import Lumio.Control.Delivery
import Lumio.Control.Enrolment
import Lumio.Control.Federation
import Lumio.Control.Redirects
import Lumio.Control.Refunds
import Lumio.Control.Scopes
import Lumio.Control.SignIn
import Lumio.Data.AllOrNothing
import Lumio.Data.IndexLines
import Lumio.Desktop.Expiry
import Lumio.Desktop.Restore
import Lumio.Desktop.SignOut
import Lumio.Desktop.TakeoverFields
import Lumio.Fs.ContentCache
import Lumio.Fs.Flush
import Lumio.Fs.NetEffect
import Lumio.Fs.Renames
import Lumio.Fs.Scan
import Lumio.Mobile.Bookkeeping
import Lumio.Mobile.Delivery
import Lumio.Mobile.Registration
import Lumio.Proxy.Chunking
import Lumio.Proxy.Grouping
import Lumio.Proxy.Indexes
import Lumio.Proxy.Naming
import Lumio.Proxy.Usage
import Lumio.Relay.Fairness
import Lumio.Sync.Ack.Requests
import Lumio.Sync.Conflicts.Closure
import Lumio.Sync.Conflicts.Consistency
import Lumio.Sync.Inbound.Budget
import Lumio.Sync.Journal.Recovery
import Lumio.Sync.Journal.Stages
import Lumio.Sync.Local.Clean
import Lumio.Sync.Local.Vanished
import Lumio.Sync.Outbox.Replay
import Lumio.Sync.Outbox.Rows
import Lumio.Sync.Paths.Revisions
import Lumio.Sync.Receipts.Once
import Lumio.Sync.Snapshot.Stable
import Lumio.Sync.Streams.Invariant
import Lumio.Transport.Blobs
import Lumio.Transport.Correlation
import Lumio.Transport.Order
