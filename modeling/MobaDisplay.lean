import MobaDisplay.Lib.Transition
import MobaDisplay.Proof.Command
import MobaDisplay.Page.Control
import MobaDisplay.Lib.LastWrite
import MobaDisplay.Proof.Emergency
import MobaDisplay.Proof.Switches
import MobaDisplay.Proof.Blocks
import MobaDisplay.Proof.Trains
import MobaDisplay.Proof.Startup
import MobaDisplay.Server.ReadAndSend
import MobaDisplay.Proof.Streaming
import MobaDisplay.Proof.MsgThread
import MobaDisplay.Server.ResourceLoader
import MobaDisplay.Proof.Containment
import MobaDisplay.Proof.UnknownTrains
import MobaDisplay.Proof.Transitions
import MobaDisplay.Server.Operator
import MobaDisplay.Proof.Answers
import MobaDisplay.Proof.Refusals
import MobaDisplay.Lib.BigEndian
import MobaDisplay.Lib.AsyncRead
import MobaDisplay.Lib.WebSocketFrame
import MobaDisplay.Web.ReadMessage
import MobaDisplay.Lib.WebSocketClient
import MobaDisplay.Proof.ReadMessage
import MobaDisplay.Proof.Conversation
import MobaDisplay.Lib.SendQueue
import MobaDisplay.Web.Send
import MobaDisplay.Network.Broadcast
import MobaDisplay.Proof.Broadcast
import MobaDisplay.Lib.Gate
import MobaDisplay.Web.ScopeRunner
import MobaDisplay.Proof.ScopeRunner
import MobaDisplay.Lib.CxxLine
import MobaDisplay.Lib.Streambuf
import MobaDisplay.Proof.RequestMessage
import MobaDisplay.Lib.CxxUnsigned
import MobaDisplay.Web.Session
import MobaDisplay.Proof.Session
import MobaDisplay.Proof.Browsing
import MobaDisplay.Proof.LineEnd
import MobaDisplay.Proof.SessionOrder
import MobaDisplay.Proof.AnswerText
import MobaDisplay.Proof.Upgrade
import MobaDisplay.Proof.Visit
import MobaDisplay.Proof.Loading
import MobaDisplay.Proof.Panel
import MobaDisplay.Proof.Drawing
import MobaDisplay.Proof.Audience
import MobaDisplay.Web.QueryString
import MobaDisplay.Proof.QueryString
