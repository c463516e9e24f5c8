import CppServerStudio.Http.Response
import CppServerStudio.Rtsp.MediaStream

/-!
# RTSP sessions

`RtspSession::onWholeRtspPacket` answers the requests of one connection. What a handler takes from
outside is an argument of each request: the outcome of loading the file of the stream, the random
values and the date. A handler that dereferences a null pointer ends in a fault.

## Main definitions

* `RtspSession`, `RequestEnv`: a session, and what the handler of a request takes from outside
* `RtspSession.parse`: the parts of the first url
* `RtspSession.getRtspResponse`: the text of a response
* `RtspSession.onWholeRtspPacket`: the dispatch to the handlers
-/

namespace CppServerStudio

open Scanning

inductive RtpType
  | invalid | tcp | udp | multicast
  deriving DecidableEq, Repr

structure RtspSession where
  cseq : ℤ := 0
  contentBase : Bytes := []
  sessionid : Bytes := []
  schema : Bytes := []
  host : Bytes := []
  port : UInt16 := 0
  vhost : Bytes := []
  app : Bytes := []
  streamid : Bytes := []
  paramStrs : StringMap := ∅
  stream : Option RtspMediaStream := none
  rtpType : RtpType := .invalid

/-- What the handler of a request takes from outside. -/
structure RequestEnv where
  /-- The outcome of loading the file of the stream. -/
  file : LoadOutcome
  /-- `generateRandomInt<uint32_t>()`. -/
  ssrc : UInt32
  /-- `makeRandStr(12)`. -/
  sessionid : Bytes
  /-- `dateStr()`. -/
  date : Bytes

/-- What a handler does: send a message to the connection, and have its loop read frames of the
stream every so many milliseconds. -/
inductive SessionAction
  | send (msg : Bytes)
  | runEvery (interval : ℕ)
  deriving DecidableEq

/-! ## Texts -/

/-- `s.substr(0, pos)`, where `none` is `npos`. -/
def upTo (s : Bytes) : Option ℕ → Bytes
  | none => s
  | some pos => s.take pos

/-- `s.substr(pos + 1)`, where `none` is `npos`, whose successor is zero. -/
def after (s : Bytes) : Option ℕ → Bytes
  | none => s
  | some pos => s.drop (pos + 1)

/-- `emplace` for each entry in turn, which keeps the value a key has. -/
def emplaceAll (m : StringMap) (entries : List (Bytes × Bytes)) : StringMap :=
  entries.foldl (fun m entry => m.insertIfNew entry.1 entry.2) m

/-- A list of keys and values in turn, as the entries they form. -/
def keyValues : List Bytes → List (Bytes × Bytes)
  | key :: val :: rest => (key, val) :: keyValues rest
  | _ => []

/-- `std::to_string` of a number of milliseconds divided by `1000.0`: the quotient has three
decimals, and six are written. -/
def secondsOfMillis (t : ℕ) : Bytes :=
  let digit (n : ℕ) : Byte := UInt8.ofNat (48 + n % 10)
  decimal (t / 1000) ++ [ascii '.', digit (t / 100), digit (t / 10), digit t] ++ ofString "000"

namespace RtspSession

/-- **`parse`**: the host and the port, and behind them the application and the stream. -/
def parse (s : RtspSession) (urlIn : Bytes) : RtspSession :=
  let (s, url) := match find (ofString "://") urlIn with
    | some schemaPos => ({ s with schema := urlIn.take schemaPos }, urlIn.drop (schemaPos + 3))
    | none => (s, urlIn)
  let pos := find (ofString "/") url
  match rfind (ofString ":") (upTo url pos) with
  | none => { s with host := upTo url pos, vhost := upTo url pos }
  | some hostPos =>
    let s := { s with
      host := url.take hostPos
      port := (sscanfU16 ((upTo url pos).drop (hostPos + 1))).getD s.port
      vhost := url.take hostPos }
    let url := after url pos
    match find (ofString "/") url with
    | none => { s with app := url }
    | some pos =>
      let s := { s with app := url.take pos }
      let url := url.drop (pos + 1)
      -- `back()` of an empty string reads the zero byte in front of its characters
      { s with streamid := if url.getLast? = some (ascii '/') then url.dropLast else url }

/-- **`getRtspResponse`**: the status line, the headers in the order of their keys, the body. -/
def getRtspResponse (s : RtspSession) (date resCode : Bytes) (headers : StringMap := ∅)
    (sdp : Bytes := []) (protocol : Bytes := ofString "RTSP/1.0") : Bytes :=
  let header := emplaceAll headers [(ofString "CSeq", decimalInt s.cseq)]
  let header := if s.sessionid ≠ [] then
    emplaceAll header [(ofString "Session", s.sessionid)] else header
  let header := emplaceAll header [(ofString "Server", ofString "RtspServer Study"),
    (ofString "Date", date)]
  let header := if sdp ≠ [] then
    emplaceAll header [(ofString "Content-Length", decimal sdp.length),
      (ofString "Content-Type", ofString "application/sdp")] else header
  protocol ++ ofString " " ++ resCode ++ ofString "\r\n" ++
    header.toList.flatMap HttpResponse.headerLine ++ ofString "\r\n" ++ sdp

/-- The overload for a list of keys and values in turn. -/
def getRtspResponseOf (s : RtspSession) (date resCode : Bytes) (header : List Bytes)
    (sdp : Bytes := []) : Bytes :=
  s.getRtspResponse date resCode (emplaceAll ∅ (keyValues header)) sdp

/-! ## The handlers -/

variable (s : RtspSession) (request : HttpRequest) (env : RequestEnv)

/-- **`handleOptions`**. -/
def handleOptions : RtspSession × List SessionAction :=
  (s, [.send (s.getRtspResponseOf env.date (ofString "200 OK") [ofString "Public",
    ofString "OPTIONS, DESCRIBE, SETUP, TEARDOWN, PLAY, PAUSE, ANNOUNCE, RECORD"])])

/-- **`handleDescribe`**: the stream and the session id are new even when the file is not
loaded. -/
def handleDescribe : RtspSession × List SessionAction :=
  let track : Track :=
    { seq := 1, ssrc := env.ssrc, timeStamp := 0, type := 0, samplerate := 90000, pt := 96,
      interleaved := UInt8.ofInt (2 * 0) }
  let (stream, ready) :=
    RtspMediaStream.createFromEs { url := s.streamid, mediaTrack := track } env.file
  let s := { s with stream := some stream, sessionid := env.sessionid }
  -- the session keeps the stream that is not ready
  if ¬ ready then
    (s, [.send (s.getRtspResponseOf env.date (ofString "404 Stream Not Found")
      [ofString "Connection", ofString "Close"])])
  else
    (s, [.send (s.getRtspResponseOf env.date (ofString "200 OK")
      [ofString "Content-Base", s.contentBase ++ ofString "/",
        ofString "x-Accept-Retransmit", ofString "our-retransmit",
        ofString "x-Accept-Dynamic-Rate", ofString "1"] stream.sdp)])

/-- The transport a `SETUP` request asks for. -/
def requestedRtpType (transport : Bytes) : RtpType :=
  if (find (ofString "TCP") transport).isSome then .tcp
  else if (find (ofString "multicast") transport).isSome then .multicast
  else .udp

/-- **`handleSetup`**: only interleaved transport is answered. -/
def handleSetup : Except NullPointer (RtspSession × List SessionAction) :=
  match s.stream with
  | none => .error .stream
  | some stream =>
    -- a later `SETUP` keeps the transport of the first one
    let s := if s.rtpType = .invalid then
      { s with rtpType := requestedRtpType (request.getRequestValue (ofString "Transport")) } else s
    let interleaved := stream.mediaTrack.interleaved.toNat
    match s.rtpType with
    | .tcp => .ok (s, [.send (s.getRtspResponseOf env.date (ofString "200 OK")
        [ofString "Transport", ofString "RTP/AVP/TCP;unicast;" ++ ofString "interleaved=" ++
            decimal interleaved ++ ofString "-" ++ decimal (interleaved + 1) ++ ofString ";" ++
            ofString "ssrc=" ++ stream.mediaTrack.getSSRC,
          ofString "x-Transport-Options", ofString "late-tolerance=1.400000",
          ofString "x-Dynamic-Rate", ofString "1"])])
    | .udp | .multicast | .invalid => .ok (s, [])

/-- The `RTP-Info` of a response to `PLAY`. -/
def rtpInfo (track : Track) : Bytes :=
  let rtptime := track.timeStamp * UInt32.ofInt (track.samplerate.tdiv 1000)
  (ofString "url=" ++ s.contentBase ++ ofString ";" ++
    ofString "seq=" ++ decimal track.seq.toNat ++ ofString ";" ++
    ofString "rtptime=" ++ decimalInt rtptime.toBitVec.toInt ++ ofString ",").dropLast

/-- **`handlePlay`**: the track of the stream is read before `_stream` is compared to null, so the
answer to a session without a stream is out of reach. -/
def handlePlay : Except NullPointer (RtspSession × List SessionAction) :=
  match s.stream with
  | none => .error .stream
  | some stream =>
    if request.getRequestValue (ofString "Session") ≠ s.sessionid then
      .ok (s, [.send (s.getRtspResponseOf env.date (ofString "454 Session Not Found")
        [ofString "Connection", ofString "Close"])])
    else do
      let resMap := emplaceAll ∅ [(ofString "RTP-Info", s.rtpInfo stream.mediaTrack),
        (ofString "Range", ofString "npt=" ++ secondsOfMillis stream.mediaTrack.timeStamp.toNat)]
      let stream ← stream.setEncoderSendCB
      .ok ({ s with stream := some stream },
        [.send (s.getRtspResponse env.date (ofString "200 OK") resMap), .runEvery 500])

/-- The fields every request sets before its handler runs. -/
def prepare : RtspSession :=
  let s := { s with cseq := atoi (request.getRequestValue (ofString "CSeq")) }
  if s.contentBase = [] ∧ request.method ≠ ofString "GET" then
    { parse { s with contentBase := request.url, paramStrs := request.requestParams } request.url
      with schema := ofString "rtsp" }
  else s

/-- **`onWholeRtspPacket`**. -/
def onWholeRtspPacket : Except NullPointer (RtspSession × List SessionAction) :=
  let s := s.prepare request
  if request.method = ofString "OPTIONS" then .ok (s.handleOptions env)
  else if request.method = ofString "DESCRIBE" then .ok (s.handleDescribe env)
  else if request.method = ofString "SETUP" then s.handleSetup request env
  else if request.method = ofString "PLAY" then s.handlePlay request env
  else .ok (s, [.send (s.getRtspResponse env.date (ofString "403 Forbidden"))])

end RtspSession

end CppServerStudio
