import Incredis.ErrorText
import Incredis.Arguments
import Incredis.ReplyTree
import Incredis.Batch.Reuse
import Incredis.Batch.Failure
import Incredis.Batch.BackPressure
import Incredis.Batch.Lifetime
import Incredis.Batch.Rejected
import Incredis.Batch.Agreement
import Incredis.Wakeup
import Incredis.Batch.Returns
import Incredis.Batch.Asserted
import Incredis.Connection.Shutdown
import Incredis.Connection.Threads
import Incredis.Connection.Progress
import Incredis.Connection.Contexts
import Incredis.Connection.Cycles
import Incredis.Connection.Query
import Incredis.Connection.Attempts
import Incredis.Scan.Iterator
import Incredis.Scan.Traversal
import Incredis.Scan.Equality
import Incredis.Scan.Malformed
import Incredis.Scan.Cursor
import Incredis.Scan.Numeral
import Incredis.Script.Flush
import Incredis.Script.Retry
import Incredis.Script.Builds
import Incredis.Script.Run
import Incredis.ScoreRange
import Incredis.Ownership
import Incredis.Commands
import Incredis.Commands.Batched
import Incredis.EventLoop.Progress
