import CppServerStudio.Rtsp.H264Rtp

/-!
# Media streams

A stream has a track from its construction on, and an encoder once its file has been loaded. The
constructor makes the track and nothing resets it, so a stream holds the track itself.

## Main definitions

* `Track`, `RtspMediaStream`: a track, and a stream that sends it
* `RtspMediaStream.createFromEs`: the loading of the file of a stream
* `RtspMediaStream.setEncoderSendCB`: the start of the sending, which needs the encoder
-/

namespace CppServerStudio

/-- The null pointer a session dereferences. -/
inductive NullPointer
  | stream | encoder
  deriving DecidableEq, Repr

structure Track where
  pt : ℤ
  samplerate : ℤ
  type : ℤ
  interleaved : Byte := 0
  seq : UInt16 := 0
  ssrc : UInt32 := 0
  timeStamp : UInt32 := 0

/-- The digit `%X` writes for a number below sixteen. -/
def hexDigit (n : ℕ) : Byte := UInt8.ofNat (if n < 10 then 48 + n else 55 + n)

/-- **`Track::getSSRC`**: the bytes in network order, each in two hexadecimal digits. -/
def Track.getSSRC (t : Track) : Bytes :=
  (be32 t.ssrc).flatMap fun b => [hexDigit (b.toNat / 16), hexDigit (b.toNat % 16)]

/-- What loading the file of a stream comes to: it has no bytes, or it has bytes and `sdp`
describes its parameter sets. -/
inductive LoadOutcome
  | failed
  | loaded (sdp : Bytes)

/-- A stream, and whether the callback of its encoder sends to the connection. -/
structure RtspMediaStream where
  url : Bytes
  mediaTrack : Track
  sdp : Bytes := []
  encoder : Option H264RtpEncoder := none
  sending : Bool := false

namespace RtspMediaStream

/-- **`createFromEs`**: without bytes in the file there is no encoder. -/
def createFromEs (m : RtspMediaStream) : LoadOutcome → RtspMediaStream × Bool
  | .failed => (m, false)
  | .loaded sdp =>
    let encoder : H264RtpEncoder :=
      { ssrc := m.mediaTrack.ssrc, interleaved := m.mediaTrack.interleaved,
        pt := UInt8.ofInt m.mediaTrack.pt }
    ({ m with sdp := sdp, encoder := some encoder }, true)

/-- **`setEncoderSendCB`**. -/
def setEncoderSendCB (m : RtspMediaStream) : Except NullPointer RtspMediaStream :=
  match m.encoder with
  | none => .error .encoder
  | some _ => .ok { m with sending := true }

/-- What `readFrame`, which the timer of a stream calls, may change: the time stamp of the track,
and the next sequence number of the encoder. -/
def streamed (m : RtspMediaStream) (timeStamp : UInt32) (seq : UInt16) : RtspMediaStream :=
  if m.sending then
    { m with
      mediaTrack := { m.mediaTrack with timeStamp := timeStamp }
      encoder := m.encoder.map fun e => { e with seq := seq } }
  else m

@[simp] theorem isSome_encoder_streamed (m : RtspMediaStream) (timeStamp : UInt32)
    (seq : UInt16) : (m.streamed timeStamp seq).encoder.isSome = m.encoder.isSome := by
  unfold streamed
  split <;> simp

end RtspMediaStream

end CppServerStudio
