import CppServerStudio.Library.Scanning
import CppServerStudio.Library.Runs
import CppServerStudio.Library.Executions
import CppServerStudio.Library.Blocks
import CppServerStudio.Library.Fragments
import CppServerStudio.Library.Languages
import CppServerStudio.Library.Delimiters
import CppServerStudio.Library.Sextets
import CppServerStudio.Library.Recents
import CppServerStudio.Library.Watchdogs
import CppServerStudio.Library.Gates
import CppServerStudio.Library.Messages
import CppServerStudio.Library.OutStreams
import CppServerStudio.Util.Bytes
import CppServerStudio.Util.Decimal
import CppServerStudio.Util.Find
import CppServerStudio.Util.Latch
import CppServerStudio.Event.EventLoop
import CppServerStudio.Event.Wakeup
import CppServerStudio.NetWork.Buffer
import CppServerStudio.NetWork.ByteQueue
import CppServerStudio.NetWork.BufferMoves
import CppServerStudio.NetWork.Channel
import CppServerStudio.NetWork.Epoller
import CppServerStudio.NetWork.TcpConnection
import CppServerStudio.NetWork.SendErrors
import CppServerStudio.Http.Request
import CppServerStudio.Http.Context
import CppServerStudio.Http.CursorSafety
import CppServerStudio.Http.Grammar
import CppServerStudio.Http.Acceptance
import CppServerStudio.Http.RoundTrip
import CppServerStudio.Http.Isolation
import CppServerStudio.Http.Whitespace
import CppServerStudio.Http.LineBreaks
import CppServerStudio.Http.EmptyParams
import CppServerStudio.Http.Language
import CppServerStudio.Http.Response
import CppServerStudio.Http.Server
import CppServerStudio.Rtsp.Server
import CppServerStudio.Http.EndOfStream
import CppServerStudio.Http.ReadEvents
import CppServerStudio.Rtsp.Rejection
import CppServerStudio.Http.Framing
import CppServerStudio.Http.Chunks
import CppServerStudio.Http.SelfDelimiting
import CppServerStudio.Rtsp.RtpPacket
import CppServerStudio.Rtsp.H264Rtp
import CppServerStudio.Rtsp.Depacketizer
import CppServerStudio.Rtsp.Packetization
import CppServerStudio.Rtsp.H264
import CppServerStudio.Rtsp.AnnexB
import CppServerStudio.Rtsp.StartCodes
import CppServerStudio.Rtsp.RtpStream
import CppServerStudio.Rtsp.Accessors
import CppServerStudio.Rtsp.EncoderPipeline
import CppServerStudio.Rtsp.MediaStream
import CppServerStudio.Rtsp.Sdp
import CppServerStudio.Rtsp.Base64
import CppServerStudio.Rtsp.SdpFields
import CppServerStudio.Rtsp.FileScan
import CppServerStudio.Rtsp.ScannerBounds
import CppServerStudio.Rtsp.ConfigFrames
import CppServerStudio.Rtsp.Sending
import CppServerStudio.Rtsp.ReadFrame
import CppServerStudio.Rtsp.Turns
import CppServerStudio.Rtsp.Pacing
import CppServerStudio.Rtsp.Pictures
import CppServerStudio.Rtsp.Numbering
import CppServerStudio.Rtsp.Session
import CppServerStudio.Rtsp.SessionSafety
import CppServerStudio.Rtsp.Loading
import CppServerStudio.Rtsp.Responses
import CppServerStudio.Rtsp.Player
import CppServerStudio.Rtsp.RtpInfo
import CppServerStudio.Rtsp.Interleaved
import CppServerStudio.Rtsp.Conversation
import CppServerStudio.Rtsp.Delivery
import CppServerStudio.Rtsp.Playback
import CppServerStudio.Rtsp.StreamUrl
import CppServerStudio.Rtsp.SessionUrl
import CppServerStudio.NetWork.TcpServer
import CppServerStudio.NetWork.Lifecycle
import CppServerStudio.NetWork.Teardown
import CppServerStudio.NetWork.Acceptor
import CppServerStudio.Thread.LoopThread
import CppServerStudio.NetWork.Balance
import CppServerStudio.Http.Reactors
import CppServerStudio.Http.Delivery
import CppServerStudio.Http.Conversation
import CppServerStudio.Thread.ThreadPool
import CppServerStudio.Thread.Tasks
import CppServerStudio.Thread.Exits
import CppServerStudio.Timer.TimerQueue
import CppServerStudio.Timer.TimerLife
import CppServerStudio.Timer.Kept
import CppServerStudio.Timer.Returning
import CppServerStudio.Timer.Firing
import CppServerStudio.Timer.Arming
import CppServerStudio.Http.AutoClose
import CppServerStudio.Http.MainThread
import CppServerStudio.Http.IdleConnections
import CppServerStudio.Log.FixedBuffer
import CppServerStudio.Log.AsyncLogging
import CppServerStudio.Log.Accepted
import CppServerStudio.Log.Fitting
import CppServerStudio.Log.LogStream
import CppServerStudio.Log.Logging
import CppServerStudio.Log.Shutdown
import CppServerStudio.Log.LogFile
import CppServerStudio.Log.Rolling
import CppServerStudio.Rtcp.RtcpContext
