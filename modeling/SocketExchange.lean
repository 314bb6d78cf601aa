import SocketExchange.Lib.Run
import SocketExchange.Exchange
import SocketExchange.Ledger
import SocketExchange.Connection
import SocketExchange.Output
import SocketExchange.World
import SocketExchange.Commands
import SocketExchange.Io
import SocketExchange.Server
import SocketExchange.Deliveries
import SocketExchange.Steps
import SocketExchange.Ownership
import SocketExchange.Routing
import SocketExchange.Losses
import SocketExchange.OrderLines
import SocketExchange.Staleness
import SocketExchange.Lib.Framing
import SocketExchange.Requests
import SocketExchange.Responses
import SocketExchange.Roles
import SocketExchange.OrderIds
import SocketExchange.Quits
import SocketExchange.AfterQuit
import SocketExchange.HalfClose
import SocketExchange.Client
import SocketExchange.EndToEnd
import SocketExchange.Isolation
import SocketExchange.Shortage
import SocketExchange.Levels
import SocketExchange.Arguments
import SocketExchange.Tokens
import SocketExchange.Lib.LinkedList
import SocketExchange.Pointers
import SocketExchange.Table
import SocketExchange.Lib.Market
import SocketExchange.IdealMarket
import SocketExchange.Priority
import SocketExchange.Tape
import SocketExchange.Conversation
import SocketExchange.Lib.Notification
import SocketExchange.Queues
import SocketExchange.Kernel
import SocketExchange.Wakeups
import SocketExchange.Lib.Inevitable
import SocketExchange.Rest
import SocketExchange.Lib.Account
import SocketExchange.Accounts
import SocketExchange.Programs
import SocketExchange.Terminal
import SocketExchange.Lifecycle
