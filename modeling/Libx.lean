import Libx.Agent.Progress
import Libx.Agent.Refusal
import Libx.Agent.Resume
import Libx.Agent.Tokens
import Libx.Agent.Paired
import Libx.Agent.Conversation
import Libx.Ice.Balance
import Libx.Ice.Connected
import Libx.Ice.Credit
import Libx.Ice.Manager
import Libx.Turn.Allocation
import Libx.DataChannel.Crossing
import Libx.Peer.Authentic
import Libx.Fer.Wire
import Libx.Fer.Bounded
import Libx.Fer.Finality
import Libx.Fer.SignalServer
import Libx.Http.Delivered
import Libx.Http.DeflateAgree
import Libx.Fer.Outcome
import Libx.Buf.ByteLists
import Libx.Loop.TimersExact
import Libx.Loop.SourcesGuarded
import Libx.Loop.OffloadExact
import Libx.Map.Backends
import Libx.Http.StreamsOnce
import Libx.Base.MpscExact
import Libx.Base.TimerExact
import Libx.Base.TaskGroupExact
import Libx.Base.CommandExact
import Libx.Xpp.WorkStealingExact
import Libx.Xpp.Adapter
import Libx.Xpp.Mutex
import Libx.Xpp.PollEvented
import Libx.Xpp.SchedulerExact
import Libx.Agent.Trim
import Libx.Ice.AttrWriter
import Libx.DataChannel.Open
import Libx.Agent.Resend
import Libx.Agent.JsonlRetrieve
import Libx.Tui.MdChunks
import Libx.Ice.NatProbe
import Libx.Agent.Sidecar
import Libx.Ice.Srflx
import Libx.Ice.Fingerprint
import Libx.Line.History
import Libx.Buf.Ring
import Libx.Loop.Waits
import Libx.Net.Url
import Libx.Http.SseEvents
import Libx.Http.Pieces
import Libx.Fer.Sending
import Libx.Map.LinkedExact
import Libx.Base.Utf8
import Libx.Base.Base64
import Libx.Base.Base58
import Libx.Xpp.Addr
import Libx.Base.Slab
import Libx.Base.Array
import Libx.Fer.BitmapSet
