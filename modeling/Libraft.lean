import Libraft.Foundation.Scheduled
import Libraft.Foundation.CondVar
import Libraft.Foundation.Wakeups
import Libraft.Foundation.Progress
import Libraft.Foundation.CyclicWindow
import Libraft.Foundation.Fifo
import Libraft.Foundation.CString
import Libraft.Foundation.Numerals
import Libraft.Foundation.Printing
import Libraft.Foundation.Scanning
import Libraft.Foundation.Nesting
import Libraft.Queue.ArrayBlockingQueue
import Libraft.Queue.BoundedFifo
import Libraft.Queue.Closing
import Libraft.Queue.CallerSpec
import Libraft.Queue.Wakeups
import Libraft.Queue.Progress
import Libraft.Queue.Deque
import Libraft.Queue.DequeLaws
import Libraft.Calls.Slot
import Libraft.Calls.Records
import Libraft.Shm.Bounds
import Libraft.Fsm.Worker
import Libraft.Fsm.Answering
import Libraft.Fsm.Refinement
import Libraft.Fsm.Completion
import Libraft.Fsm.Progress
import Libraft.Snapshot.System
import Libraft.Snapshot.Wiring
import Libraft.Snapshot.Answers
import Libraft.Snapshot.Jobs
import Libraft.Pool.Call
import Libraft.Pool.System
import Libraft.Pool.Invariant
import Libraft.Pool.Results
import Libraft.Pool.Accounting
import Libraft.Pool.Exclusion
import Libraft.Pool.Reuse
import Libraft.Pool.Finality
import Libraft.Pool.Stranding
import Libraft.Pool.Leaks
import Libraft.Pool.Uses
import Libraft.Pool.TimedWait
import Libraft.Pool.Disposal
import Libraft.Pool.Requests
import Libraft.Pool.Queries
import Libraft.Pool.Futures
import Libraft.Pool.Sync
import Libraft.Calls.Queued
import Libraft.Lifecycle.System
import Libraft.Lifecycle.Cycles
import Libraft.Lifecycle.Stopping
import Libraft.Config.Options
import Libraft.Config.Texts
import Libraft.Config.Numbers
import Libraft.Stats.Jsmn
import Libraft.Stats.Tokens
import Libraft.Stats.Print
import Libraft.Stats.Members
import Libraft.Stats.Objects
import Libraft.Stats.Nesting
import Libraft.Stats.Outline
import Libraft.Startup.System
import Libraft.Startup.Segments
import Libraft.Startup.Watching
import Libraft.Client.Letters
import Libraft.Client.Snapshots
import Libraft.Client.Sessions
import Libraft.Client.Options
