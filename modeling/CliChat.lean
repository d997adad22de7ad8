import CliChat.Common.FrameStream
import CliChat.Common.TransferLoops
import CliChat.Common.Debug
import CliChat.Client.MessageWindow
import CliChat.Client.Handshake
import CliChat.Client.Passes
import CliChat.Client.Reasons
import CliChat.Server.Departures
import CliChat.Server.References
import CliChat.Server.EventLoop
import CliChat.Server.FailedSends
import CliChat.Server.Readiness
import CliChat.Server.Strangers
import CliChat.Server.Conversation
import CliChat.Server.Forwarding
import CliChat.Server.Release
import CliChat.Server.Headers
import CliChat.Server.History
import CliChat.Server.Nonces
import CliChat.System.Harmless
import CliChat.System.Sealing
import CliChat.System.Authors
import CliChat.System.Main
import CliChat.Server.Lifecycle
import CliChat.Server.Offers
import CliChat.System.Order
