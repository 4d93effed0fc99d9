import PgMux.Admin.Dashboard
import PgMux.Backend.Boundaries
import PgMux.Backend.Clean
import PgMux.Backend.Connect
import PgMux.Backend.Delivery
import PgMux.Backend.ErrorFields
import PgMux.Backend.Handshake
import PgMux.Backend.LeftBehind
import PgMux.Backend.Link
import PgMux.Backend.Reset
import PgMux.Backend.Slices
import PgMux.Backend.Terminate
import PgMux.Backend.Transactions
import PgMux.Client.Arrival
import PgMux.Client.Boundaries
import PgMux.Client.Callers
import PgMux.Client.FirstMessage
import PgMux.Client.GivingBack
import PgMux.Client.Leaks
import PgMux.Client.LimitTexts
import PgMux.Client.Limits
import PgMux.Client.OptionTexts
import PgMux.Client.Parameters
import PgMux.Client.Relay
import PgMux.Client.Reports
import PgMux.Client.Seats
import PgMux.Client.Startup
import PgMux.Client.Views
import PgMux.Client.World
import PgMux.Codec
import PgMux.Config
import PgMux.Fields
import PgMux.Messages
import PgMux.Monitor
import PgMux.Monitor.Flags
import PgMux.Monitor.Gauges
import PgMux.Monitor.Pass
import PgMux.Pool.Accounting
import PgMux.Pool.Authentication
import PgMux.Pool.Callers
import PgMux.Pool.Capacity
import PgMux.Pool.Congestion
import PgMux.Pool.Custody
import PgMux.Pool.Deadlines
import PgMux.Pool.FailedAcquire
import PgMux.Pool.Handshakes
import PgMux.Pool.IdleQueue
import PgMux.Pool.Lifetime
import PgMux.Pool.Manager
import PgMux.Pool.Moves
import PgMux.Pool.Overshoot
import PgMux.Pool.Ownership
import PgMux.Pool.Poll
import PgMux.Pool.Quiescence
import PgMux.Pool.Reconciliation
import PgMux.Pool.Settings
import PgMux.Pool.Starvation
import PgMux.Pool.System
import PgMux.Pool.Waiters
import PgMux.Pool.WakeOrder
import PgMux.Pool.Wakeups
import PgMux.Protocol
import PgMux.Proxy.Alignment
import PgMux.Proxy.Cutting
import PgMux.Proxy.Deadlock
import PgMux.Proxy.Drains
import PgMux.Proxy.Enforcement
import PgMux.Proxy.Loops
import PgMux.Proxy.ReadOnly
import PgMux.Proxy.Received
import PgMux.Proxy.Requests
import PgMux.Proxy.Serving
import PgMux.Proxy.Session
import PgMux.Proxy.Shrinking
import PgMux.Proxy.SlowLoop
import PgMux.Proxy.Stranding
import PgMux.Proxy.Streams
import PgMux.Proxy.Warnings
import PgMux.Scanner
import PgMux.Scanner.Bounds
import PgMux.Scanner.Status
import PgMux.Server
import PgMux.Server.Tenants
import PgMux.Shared.Delimited
import PgMux.Shared.Fifo
import PgMux.Shared.Framing
import PgMux.Shared.History
import PgMux.Shared.Latch
import PgMux.Shared.Markup
import PgMux.Shared.Reader
import PgMux.Shared.Tally
import PgMux.Shared.Transition
import PgMux.Shared.Watching
import PgMux.SizeFaults
import PgMux.SizeLimits
import PgMux.Statements
import PgMux.Text
