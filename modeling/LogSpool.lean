import LogSpool.Demo
import LogSpool.Event.Shown
import LogSpool.Proofs.Spool.Shutdown
import LogSpool.Proofs.Spool.Survival
import LogSpool.Record.Reader
import LogSpool.Proofs.Session.Memory
import LogSpool.Proofs.Spool.Delivery
import LogSpool.Proofs.Spool.Closing
import LogSpool.Proofs.Spool.Cancelling
import LogSpool.Proofs.Spool.Draining
import LogSpool.Proofs.Spool.Waking
import LogSpool.Proofs.Spool.Scheduling
import LogSpool.Proofs.Spool.Lifecycle
import LogSpool.Proofs.Record.Framing
import LogSpool.Proofs.Record.RoundTrip
import LogSpool.Proofs.Feed.Conservation
import LogSpool.Proofs.Feed.Feedback
import LogSpool.Proofs.Counter.Sharing
import LogSpool.Proofs.Counter.Wrapping
import LogSpool.Proofs.Session.Initialisation
import LogSpool.Proofs.Spool.Polling
import LogSpool.Proofs.Timed.Transition
import LogSpool.Proofs.Timed.Run
import LogSpool.Proofs.Timed.Deadlines
import LogSpool.Proofs.Timed.Work
import LogSpool.Proofs.Spool.Refilling
import LogSpool.Proofs.Timed.Shutdown
import LogSpool.Proofs.Session.Calm
import LogSpool.Proofs.Session.Waiting
import LogSpool.Proofs.Session.Bystanders
import LogSpool.Proofs.Session.TimedOut
import LogSpool.Proofs.Timed.InTime
import LogSpool.Proofs.Spool.Health
import LogSpool.Proofs.Sink.Stream
import LogSpool.Proofs.Feed.Buffers
import LogSpool.Proofs.Event.Collect
import LogSpool.Proofs.Backend.Splitting
import LogSpool.Proofs.Backend.Grammar
import LogSpool.Proofs.Backend.Canonical
import LogSpool.Proofs.Text.Decoding
import LogSpool.Proofs.Environment.Settings
import LogSpool.Proofs.Outlet.Transition
import LogSpool.Proofs.Outlet.Run
import LogSpool.Proofs.Outlet.History
import LogSpool.Proofs.Outlet.OneThread
import LogSpool.Proofs.Outlet.Agreement
