import MiniServer.Connection.Basic
import MiniServer.Connection.Exact
import MiniServer.Connection.Framing
import MiniServer.Connection.Pipelining
import MiniServer.Connection.Sending
import MiniServer.Database.Callers
import MiniServer.Database.Pool
import MiniServer.Handler.Code
import MiniServer.Handler.Outcome
import MiniServer.Handler.Progress
import MiniServer.Handler.Session
import MiniServer.Http.Acceptance
import MiniServer.Http.Answer
import MiniServer.Http.Copying
import MiniServer.Http.Form
import MiniServer.Http.Grammar
import MiniServer.Http.HeaderAgreement
import MiniServer.Http.HeaderLines
import MiniServer.Http.Receiving
import MiniServer.Http.Request
import MiniServer.Http.Response
import MiniServer.Http.Router
import MiniServer.Http.ServedFile
import MiniServer.Http.StaticRoot
import MiniServer.Http.UrlDecode
import MiniServer.LTS.Basic
import MiniServer.LTS.Linearizable
import MiniServer.LTS.Progress
import MiniServer.LTS.Record
import MiniServer.LTS.Threads
import MiniServer.LTS.WaitSet
import MiniServer.Log.Access
import MiniServer.Log.Logger
import MiniServer.Log.Notify
import MiniServer.Log.Shutdown
import MiniServer.Queue.Priority
import MiniServer.Server.Activity
import MiniServer.Server.Answers
import MiniServer.Server.Basic
import MiniServer.Server.Closing
import MiniServer.Server.Descent
import MiniServer.Server.Disturbed
import MiniServer.Server.Effort
import MiniServer.Server.IdleTimer
import MiniServer.Server.Listening
import MiniServer.Server.LogFile
import MiniServer.Server.Logged
import MiniServer.Server.Network
import MiniServer.Server.Ownership
import MiniServer.Server.Rest
import MiniServer.Server.RoundTrip
import MiniServer.Server.Serving
import MiniServer.Server.Session
import MiniServer.Server.Settling
import MiniServer.Server.Single
import MiniServer.Server.Sound
import MiniServer.Server.Steps
import MiniServer.Server.Sweep
import MiniServer.Server.Tokens
import MiniServer.Server.Whole
import MiniServer.Server.WholeRest
import MiniServer.Server.Work
import MiniServer.Stream.Framer
import MiniServer.Stream.Through
import MiniServer.Text.Bytes
import MiniServer.Text.Decimal
import MiniServer.Text.Fields
import MiniServer.Text.Lexer
import MiniServer.Text.Lines
import MiniServer.Text.Path
import MiniServer.Text.Percent
import MiniServer.Text.Search
import MiniServer.Timer.Heap
import MiniServer.Timer.Refinement
import MiniServer.Users.Accounts
import MiniServer.Users.Answers
import MiniServer.Users.Concurrent
import MiniServer.Users.Dialect
import MiniServer.Users.Injection
import MiniServer.Users.Program
import MiniServer.Users.Returns
import MiniServer.Users.Service
import MiniServer.Users.Waits
import MiniServer.Workers.Notify
import MiniServer.Workers.ThreadPool
