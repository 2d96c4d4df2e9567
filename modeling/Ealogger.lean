import Ealogger.Render
import Ealogger.SinkFile
import Ealogger.FileToggle
import Ealogger.Logger
import Ealogger.LoggerSpec
import Ealogger.FileFailure
import Ealogger.Async
import Ealogger.Delivery
import Ealogger.Barrier
import Ealogger.AsyncRefines
import Ealogger.Lib.Exclusive
import Ealogger.Removal
import Ealogger.Snapshot
import Ealogger.Substitution
import Ealogger.TimeFormat
import Ealogger.WriteFailure
import Ealogger.SetLogFile
import Ealogger.FileView
import Ealogger.History
import Ealogger.Logrotate
import Ealogger.FanOut
import Ealogger.Lib.CondQueue
import Ealogger.Wakeup
import Ealogger.Lib.Locks
import Ealogger.Locking
import Ealogger.Deadlock
import Ealogger.FileName
import Ealogger.TemplateValues
import Ealogger.Lib.Regex
import Ealogger.StackTrace
import Ealogger.Slice
import Ealogger.Clients
import Ealogger.AsyncHistory
import Ealogger.Termination
import Ealogger.Threads
import Ealogger.ReadBack
import Ealogger.Levels
import Ealogger.Faults
import Ealogger.LocalTime
import Ealogger.Progress
import Ealogger.Lib.Greedy
import Ealogger.StackSymbols
import Ealogger.QueueLock
import Ealogger.AsyncQueue
import Ealogger.Interleaving
