import NanoSocket.Lib.Words
import NanoSocket.Lib.Runs
import NanoSocket.Core.Fault
import NanoSocket.Core.Wire
import NanoSocket.Core.Pipe
import NanoSocket.Core.Timer
import NanoSocket.Core.TimerWorker
import NanoSocket.PubSub.TrieNode
import NanoSocket.PubSub.TrieArray
import NanoSocket.PubSub.TrieSubscribe
import NanoSocket.PubSub.TrieUnsubscribe
import NanoSocket.PubSub.TrieMatch
import NanoSocket.PubSub.TrieRefinement
import NanoSocket.PubSub.TrieAbsent
import NanoSocket.PubSub.TrieInvariant
import NanoSocket.Aio.UsockRecv
import NanoSocket.Tcp.StcpFraming
import NanoSocket.Protocols.Priolist
import NanoSocket.Protocols.Fq
import NanoSocket.Protocols.PipeCredit
import NanoSocket.Protocols.RoundRobin
import NanoSocket.ReqRep.Xreq
import NanoSocket.ReqRep.Req
import NanoSocket.ReqRep.ReqMachine
import NanoSocket.ReqRep.ReqSafety
import NanoSocket.ReqRep.ReqReply
import NanoSocket.ReqRep.ReqDrain
import NanoSocket.Core.Hash
import NanoSocket.Protocols.Router
import NanoSocket.Protocols.RouterKeys
import NanoSocket.Protocols.Backtrace
import NanoSocket.Protocols.Replier
import NanoSocket.Core.Cmsg
import NanoSocket.ReqRep.Device
import NanoSocket.Protocols.Dist
import NanoSocket.Survey.Xsurveyor
import NanoSocket.Survey.Surveyor
import NanoSocket.Survey.SurveyorSafety
import NanoSocket.Inproc.Msgqueue
import NanoSocket.Inproc.MsgqueueChain
import NanoSocket.Inproc.Sinproc
import NanoSocket.Inproc.SinprocChannel
import NanoSocket.Inproc.SinprocLifecycle
import NanoSocket.Inproc.Ins
import NanoSocket.Lib.Utf8
import NanoSocket.Ws.Utf8
import NanoSocket.Ws.Sws
import NanoSocket.Ws.SwsSafety
import NanoSocket.Ws.SwsRuns
import NanoSocket.Ws.SwsFrames
import NanoSocket.Ws.SwsHeaders
import NanoSocket.Ws.SwsMessages
import NanoSocket.Ws.SwsText
import NanoSocket.Lib.Search
import NanoSocket.Ws.Hash
import NanoSocket.Ws.Http
import NanoSocket.Ws.Handshake
import NanoSocket.Ws.HandshakeText
import NanoSocket.Ws.HandshakeOpening
import NanoSocket.Ws.HandshakeReply
import NanoSocket.Ws.HandshakeRuns
import NanoSocket.Ws.HandshakeServer
import NanoSocket.Ws.HandshakeAccept
import NanoSocket.Ws.HandshakeOrder
import NanoSocket.Ws.HandshakeResponse
import NanoSocket.Ws.HandshakeClient
import NanoSocket.Ws.HandshakeRoundTrip
import NanoSocket.Core.GlobalHolds
import NanoSocket.NanoMsg.BufferConservation
import NanoSocket.NanoMsg.ReceiveOnce
import NanoSocket.NanoMsg.StreamRecycling
import NanoSocket.NanoMsg.WriteStreamPages
import NanoSocket.NanoMsg.SendStream
import NanoSocket.Core.ChunkRealloc
import NanoSocket.Core.ChunkrefRuns
import NanoSocket.Core.MsgCopies
import NanoSocket.Protocols.DistChunks
import NanoSocket.NanoMsg.PoolQuota
import NanoSocket.Ws.SwsShared
import NanoSocket.Lib.StableOrder
import NanoSocket.Aio.Timerset
import NanoSocket.Core.HashRuns
import NanoSocket.Lib.Walk
import NanoSocket.Core.CmsgWalk
import NanoSocket.Core.Iovec
import NanoSocket.Core.Sendmsg
import NanoSocket.Core.SendOwned
import NanoSocket.Core.GatherScatter
import NanoSocket.Core.Recvmsg
import NanoSocket.Core.Backoff
import NanoSocket.Protocols.TimerOptions
import NanoSocket.Protocols.ReplierCancel
import NanoSocket.Ws.Mask
import NanoSocket.Lib.Fips180
import NanoSocket.Ws.Sha1
import NanoSocket.Lib.Rfc4648
import NanoSocket.Ws.Base64
import NanoSocket.Ws.HandshakeKey
import NanoSocket.Ws.HandshakeBounds
import NanoSocket.Ws.Cws
import NanoSocket.Core.Poll
import NanoSocket.NanoMsg.PageBounds
import NanoSocket.NanoMsg.FillIoVecs
import NanoSocket.NanoMsg.ReadStream
import NanoSocket.NanoMsg.Listener
import NanoSocket.NanoMsg.TakeBuffer
import NanoSocket.Ws.CodePoint
import NanoSocket.Ws.Base64Decode
import NanoSocket.Core.IntrusiveList
import NanoSocket.Core.IntrusiveQueue
import NanoSocket.NanoMsg.CopyMemory
import NanoSocket.Ws.Hostname
import NanoSocket.Tools.Options
import NanoSocket.Tcp.StreamhdrLink
import NanoSocket.Tools.CommandLine
import NanoSocket.Bus.Loopback
import NanoSocket.Core.Endpoints
import NanoSocket.Survey.SurveyorOwned
