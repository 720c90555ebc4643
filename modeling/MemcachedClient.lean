import MemcachedClient.Channel
import MemcachedClient.Client.Basic
import MemcachedClient.Client.Call
import MemcachedClient.Client.Run
import MemcachedClient.Client.Stream
import MemcachedClient.Command
import MemcachedClient.Command.Outcome
import MemcachedClient.Config
import MemcachedClient.Connection
import MemcachedClient.Connection.Exchange
import MemcachedClient.Connection.Opening
import MemcachedClient.Connection.Session
import MemcachedClient.Deadline
import MemcachedClient.Document
import MemcachedClient.Duration
import MemcachedClient.Endpoint
import MemcachedClient.Error
import MemcachedClient.Expiry
import MemcachedClient.IpAddress
import MemcachedClient.Item
import MemcachedClient.Key
import MemcachedClient.Lifecycle
import MemcachedClient.MultiGet
import MemcachedClient.Pool
import MemcachedClient.Pool.Basic
import MemcachedClient.Pool.Exclusive
import MemcachedClient.Pool.Options
import MemcachedClient.Pool.Shared
import MemcachedClient.Pool.Trial
import MemcachedClient.Proofs.Client.Acting
import MemcachedClient.Proofs.Client.Beside
import MemcachedClient.Proofs.Client.Bounding
import MemcachedClient.Proofs.Client.Lending
import MemcachedClient.Proofs.Client.Sequential
import MemcachedClient.Proofs.Client.Sheltering
import MemcachedClient.Proofs.Client.Standing
import MemcachedClient.Proofs.Client.Streaming
import MemcachedClient.Proofs.Client.Tending
import MemcachedClient.Proofs.Client.Traffic
import MemcachedClient.Proofs.Client.Truth
import MemcachedClient.Proofs.Client.Twins
import MemcachedClient.Proofs.Client.Wire
import MemcachedClient.Proofs.Command.Decoding
import MemcachedClient.Proofs.Command.Grammar
import MemcachedClient.Proofs.Connection.Answering
import MemcachedClient.Proofs.Connection.Begun
import MemcachedClient.Proofs.Connection.Course
import MemcachedClient.Proofs.Connection.Cutoff
import MemcachedClient.Proofs.Connection.Effect
import MemcachedClient.Proofs.Connection.Equipping
import MemcachedClient.Proofs.Connection.Failures
import MemcachedClient.Proofs.Connection.Faulting
import MemcachedClient.Proofs.Connection.Halves
import MemcachedClient.Proofs.Connection.Hop
import MemcachedClient.Proofs.Connection.Keeping
import MemcachedClient.Proofs.Connection.Lasting
import MemcachedClient.Proofs.Connection.Locking
import MemcachedClient.Proofs.Connection.Opening
import MemcachedClient.Proofs.Connection.Openness
import MemcachedClient.Proofs.Connection.Ordering
import MemcachedClient.Proofs.Connection.Parallel
import MemcachedClient.Proofs.Connection.Parting
import MemcachedClient.Proofs.Connection.Reading
import MemcachedClient.Proofs.Connection.Refusing
import MemcachedClient.Proofs.Connection.Releasing
import MemcachedClient.Proofs.Connection.Sending
import MemcachedClient.Proofs.Connection.Taking
import MemcachedClient.Proofs.Connection.Transcript
import MemcachedClient.Proofs.Connection.Turning
import MemcachedClient.Proofs.Connection.Withdrawing
import MemcachedClient.Proofs.Endpoint
import MemcachedClient.Proofs.Expiry
import MemcachedClient.Proofs.IpAddress
import MemcachedClient.Proofs.Key
import MemcachedClient.Proofs.MultiGet.Chronicle
import MemcachedClient.Proofs.MultiGet.Drawing
import MemcachedClient.Proofs.MultiGet.Independence
import MemcachedClient.Proofs.Pool.Accounting
import MemcachedClient.Proofs.Pool.Alike
import MemcachedClient.Proofs.Pool.Capacity
import MemcachedClient.Proofs.Pool.Creation
import MemcachedClient.Proofs.Pool.Disposal
import MemcachedClient.Proofs.Pool.Draining
import MemcachedClient.Proofs.Pool.Emptying
import MemcachedClient.Proofs.Pool.Exclusive.Capacity
import MemcachedClient.Proofs.Pool.Exclusive.Draining
import MemcachedClient.Proofs.Pool.Exclusive.Items
import MemcachedClient.Proofs.Pool.Exclusive.Line
import MemcachedClient.Proofs.Pool.Exclusive.Ownership
import MemcachedClient.Proofs.Pool.Exclusive.Run
import MemcachedClient.Proofs.Pool.Failing
import MemcachedClient.Proofs.Pool.Fairness
import MemcachedClient.Proofs.Pool.Filled
import MemcachedClient.Proofs.Pool.Filling
import MemcachedClient.Proofs.Pool.Going
import MemcachedClient.Proofs.Pool.Items
import MemcachedClient.Proofs.Pool.Leasing
import MemcachedClient.Proofs.Pool.Lifetimes
import MemcachedClient.Proofs.Pool.Making
import MemcachedClient.Proofs.Pool.Moves
import MemcachedClient.Proofs.Pool.Passing
import MemcachedClient.Proofs.Pool.Progress
import MemcachedClient.Proofs.Pool.Retirement
import MemcachedClient.Proofs.Pool.Run
import MemcachedClient.Proofs.Pool.Sharing
import MemcachedClient.Proofs.Pool.Spent
import MemcachedClient.Proofs.Pool.Teardown
import MemcachedClient.Proofs.Pool.Turns
import MemcachedClient.Proofs.Response.Alone
import MemcachedClient.Proofs.Response.Blocks
import MemcachedClient.Proofs.Response.Bounds
import MemcachedClient.Proofs.Response.Cutting
import MemcachedClient.Proofs.Response.Encoding
import MemcachedClient.Proofs.Response.Headers
import MemcachedClient.Proofs.Response.Limits
import MemcachedClient.Proofs.Response.Lines
import MemcachedClient.Proofs.Response.Pieces
import MemcachedClient.Proofs.Response.Producing
import MemcachedClient.Proofs.Response.Prompt
import MemcachedClient.Proofs.Response.Refills
import MemcachedClient.Proofs.Response.Replies
import MemcachedClient.Proofs.Response.Scanning
import MemcachedClient.Proofs.Response.Statuses
import MemcachedClient.Proofs.Response.Streaming
import MemcachedClient.Proofs.Response.Telling
import MemcachedClient.Proofs.Response.Turns
import MemcachedClient.Proofs.Semaphore
import MemcachedClient.Proofs.Semaphore.Absence
import MemcachedClient.Proofs.Semaphore.Callers
import MemcachedClient.Proofs.Semaphore.Chronicle
import MemcachedClient.Proofs.Semaphore.Conservation
import MemcachedClient.Proofs.Semaphore.Guarding
import MemcachedClient.Proofs.Semaphore.Handing
import MemcachedClient.Proofs.Semaphore.Line
import MemcachedClient.Proofs.Semaphore.Precedence
import MemcachedClient.Proofs.Semaphore.Tickets
import MemcachedClient.Proofs.Table
import MemcachedClient.Proofs.Text.Decimal
import MemcachedClient.Proofs.Text.Numeral
import MemcachedClient.Proofs.Text.Tokens
import MemcachedClient.Proofs.Text.Utf8
import MemcachedClient.Proofs.Text.Word
import MemcachedClient.Response.Feed
import MemcachedClient.Response.ItemBlock
import MemcachedClient.Response.Line
import MemcachedClient.Response.Reader
import MemcachedClient.Response.Reply
import MemcachedClient.Response.Scan
import MemcachedClient.Semaphore
import MemcachedClient.Semaphore.Session
import MemcachedClient.Simulation.Basic
import MemcachedClient.Simulation.Client
import MemcachedClient.Simulation.Connection
import MemcachedClient.Socket
import MemcachedClient.Table
import MemcachedClient.Text.Blank
import MemcachedClient.Text.Decimal
import MemcachedClient.Text.Escaped
import MemcachedClient.Text.Quoted
import MemcachedClient.Text.Utf8
