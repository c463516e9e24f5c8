import CppServerStudio.Rtsp.MediaStream
import CppServerStudio.Rtsp.Sending
import CppServerStudio.Rtsp.StartCodes

/-!
# Reading frames by the clock

`RtspMediaStream::readFrame` gives the units of a stream to the encoder until the media clock has
come up to the time since the stream was created, less 50 ms. The first slice of a picture moves the
media clock on, by 40 ms. The product in the condition of the loop has 32 bits. The encoder packs
what it releases at once, so that a unit that cannot be packed ends the turn with a fault; its
callback is set, and returns.

What is read does not depend on what is sent. So a turn is that of a reader, which says what the
encoder is asked to pack, and then the packing.

## Main definitions

* `EsReader`, `EsReader.turn`, `EsReader.readFrame`: what is read, and the loop
* `EsSender`, `EsSender.turn`, `EsSender.readFrame`: the loop with the packing
* `EsStream`: a well-formed stream

## Main results

* `EsReader.At.turn`: each turn reads the next unit of a well-formed stream
* `EsReader.readFrame_invariant`: an invariant of the turns holds when a call returns
* `EsSender.returns_iff`: the calls that return
-/

namespace CppServerStudio

open Scanning

/-- What a reader keeps between two turns: where it reads, the time stamp of the track, and the
units of the encoder. -/
structure EsReader where
  reader : NalReader
  timeStamp : UInt32 := 0
  units : EncoderUnits := {}

namespace EsReader

/-- What `createFromEs` leaves. -/
def start (stream : Bytes) : EsReader where
  reader := .start stream

/-- The condition of the loop. An `unsigned` product is compared with a 64-bit time. -/
def late (nowTime : ℤ) (s : EsReader) : Bool :=
  ((s.timeStamp * 1000).toNat : ℤ) < nowTime - 50000

/-- **What a turn reads**: the unit, and the calls of `packRtp` that it causes. -/
def turn (fresh : H264Nalu) (s : EsReader) :
    Except NalFault (EsReader × H264Nalu × List PackRtpCall) := do
  let (nalu, reader) ← s.reader.readNalu fresh
  let dts := s.timeStamp * 90
  let nalu := { nalu with dts := dts, pts := dts }
  let (units, calls) := s.units.inputFrame nalu
  let timeStamp := if nalu.decodeAble then s.timeStamp + 1000 / 25 else s.timeStamp
  .ok (⟨reader.rewind, timeStamp, units⟩, nalu, calls)

/-- **What `readFrame` reads** at the time `nowTime` since the stream was created, in at most `fuel`
turns: the units, and the calls of `packRtp`. -/
def readFrame (fresh : H264Nalu) (nowTime : ℤ) :
    ℕ → EsReader → Except NalFault (EsReader × List H264Nalu × List PackRtpCall)
  | 0, _ => .error .outOfFuel
  | fuel + 1, s =>
    if s.late nowTime then do
      let (s, nalu, calls) ← s.turn fresh
      let (s, nalus, later) ← readFrame fresh nowTime fuel s
      .ok (s, nalu :: nalus, calls ++ later)
    else .ok (s, [], [])

/-- A call returns. -/
def Returns (fresh : H264Nalu) (nowTime : ℤ) (s s' : EsReader) (nalus : List H264Nalu)
    (calls : List PackRtpCall) : Prop :=
  ∃ fuel, readFrame fresh nowTime fuel s = .ok (s', nalus, calls)

variable {fresh nalu : H264Nalu} {nowTime : ℤ} {s s' : EsReader} {nalus : List H264Nalu}
  {calls : List PackRtpCall}

/-! ## Turns and calls -/

/-- A call that returns was not late, or has made a turn. -/
theorem readFrame_cases {fuel : ℕ}
    (hrun : readFrame fresh nowTime (fuel + 1) s = .ok (s', nalus, calls)) :
    (s.late nowTime = false ∧ s' = s ∧ nalus = [] ∧ calls = []) ∨
    (s.late nowTime = true ∧ ∃ t nalu nalus' calls₀ calls',
      s.turn fresh = .ok (t, nalu, calls₀) ∧
      readFrame fresh nowTime fuel t = .ok (s', nalus', calls') ∧
      nalus = nalu :: nalus' ∧ calls = calls₀ ++ calls') := by
  rw [readFrame] at hrun
  split_ifs at hrun with hlate
  · obtain ⟨⟨t, nalu, calls₀⟩, hturn, hrun⟩ := bind_eq_ok.mp hrun
    obtain ⟨⟨t', nalus', calls'⟩, hrest, hrun⟩ := bind_eq_ok.mp hrun
    cases hrun
    exact .inr ⟨hlate, t, nalu, nalus', calls₀, calls', hturn, hrest, rfl, rfl⟩
  · cases hrun
    exact .inl ⟨Bool.eq_false_iff.mpr hlate, rfl, rfl, rfl⟩

theorem Returns.of_not_late (h : s.late nowTime = false) : Returns fresh nowTime s s [] [] :=
  ⟨1, by rw [readFrame, h]; rfl⟩

theorem Returns.of_turn {t : EsReader} {calls₀ : List PackRtpCall} (h : s.late nowTime = true)
    (hturn : s.turn fresh = .ok (t, nalu, calls₀)) (ht : Returns fresh nowTime t s' nalus calls) :
    Returns fresh nowTime s s' (nalu :: nalus) (calls₀ ++ calls) := by
  obtain ⟨fuel, hrun⟩ := ht
  refine ⟨fuel + 1, ?_⟩
  rw [readFrame, h, if_pos rfl, hturn, ok_bind]
  dsimp only
  rw [hrun, ok_bind]

/-- **An invariant of the turns** holds when a call returns, and the clock is not late then. It may
speak of the units read and the calls made by then. -/
theorem readFrame_invariant {I : EsReader → List H264Nalu → List PackRtpCall → Prop}
    (hturn : ∀ s nalus calls t nalu calls', I s nalus calls → s.late nowTime = true →
      s.turn fresh = .ok (t, nalu, calls') → I t (nalus ++ [nalu]) (calls ++ calls'))
    (h : Returns fresh nowTime s s' nalus calls) {nalus₀ : List H264Nalu}
    {calls₀ : List PackRtpCall} (h0 : I s nalus₀ calls₀) :
    I s' (nalus₀ ++ nalus) (calls₀ ++ calls) ∧ s'.late nowTime = false := by
  obtain ⟨fuel, hrun⟩ := h
  -- Induction on the turns, with what was there before them.
  induction fuel generalizing s nalus calls nalus₀ calls₀ with
  | zero => cases hrun
  | succ fuel ih =>
    rcases readFrame_cases hrun with
      ⟨hlate, rfl, rfl, rfl⟩ | ⟨hlate, t, nalu, nalus', calls₁, calls', hstep, hrest, rfl, rfl⟩
    · rw [List.append_nil, List.append_nil]
      exact ⟨h0, hlate⟩
    · have hI := ih (hturn _ _ _ _ _ _ h0 hlate hstep) hrest
      simpa only [List.append_assoc, List.singleton_append] using hI

/-- An invariant of the state alone. -/
theorem Returns.invariant {I : EsReader → Prop}
    (hturn : ∀ s t nalu calls, I s → s.late nowTime = true → s.turn fresh = .ok (t, nalu, calls) →
      I t) (h : Returns fresh nowTime s s' nalus calls) (h0 : I s) :
    I s' ∧ s'.late nowTime = false :=
  @readFrame_invariant _ _ _ _ _ _ (fun t _ _ => I t)
    (fun s _ _ t nalu calls => hturn s t nalu calls) h [] [] h0

end EsReader

/-! ## Sending -/

/-- What goes wrong in a call of `readFrame`. -/
inductive ReadFault
  | nal (fault : NalFault)
  | rtp (fault : RtpFault)

/-- What a stream keeps between two turns: what its reader keeps, and the encoder. -/
structure EsSender where
  reader : EsReader
  encoder : H264RtpEncoder

namespace EsSender

/-- What `createFromEs` leaves. -/
def start (track : Track) (stream : Bytes) : EsSender where
  reader := .start stream
  encoder := { ssrc := track.ssrc, interleaved := track.interleaved, pt := UInt8.ofInt track.pt }

/-- **One turn**: a unit is read, and the calls of `packRtp` are carried out, each for at most
`fuel` packets. -/
def turn (fresh : H264Nalu) (fuel : ℕ) (s : EsSender) :
    Except ReadFault (EsSender × H264Nalu × List RtpPacket) := do
  let (reader, nalu, calls) ← (s.reader.turn fresh).mapError .nal
  let (encoder, rtps) ← (PackRtpCall.sendAll fuel s.encoder calls).mapError .rtp
  .ok (⟨reader, encoder⟩, nalu, rtps)

/-- **`readFrame`** at the time `nowTime` since the stream was created, for at most `fuel` turns:
the units that it reads, and the packets that are sent. -/
def readFrame (fresh : H264Nalu) (nowTime : ℤ) :
    ℕ → EsSender → Except ReadFault (EsSender × List H264Nalu × List RtpPacket)
  | 0, _ => .error (.nal .outOfFuel)
  | fuel + 1, s =>
    if s.reader.late nowTime then do
      let (s, nalu, rtps) ← s.turn fresh fuel
      let (s, nalus, later) ← readFrame fresh nowTime fuel s
      .ok (s, nalu :: nalus, rtps ++ later)
    else .ok (s, [], [])

/-- A call returns. -/
def Returns (fresh : H264Nalu) (nowTime : ℤ) (s s' : EsSender) (nalus : List H264Nalu)
    (rtps : List RtpPacket) : Prop :=
  ∃ fuel, readFrame fresh nowTime fuel s = .ok (s', nalus, rtps)

/-- **Runs**: calls at these times, one after the other, lead to a state. -/
inductive Played (fresh : H264Nalu) (track : Track) (stream : Bytes) : List ℤ → EsSender → Prop
  | nil : Played fresh track stream [] (start track stream)
  | snoc {nows s nowTime s' nalus rtps} (h : Played fresh track stream nows s)
      (hs : Returns fresh nowTime s s' nalus rtps) :
      Played fresh track stream (nows ++ [nowTime]) s'

variable {fresh nalu : H264Nalu} {nowTime : ℤ} {s s' t : EsSender} {nalus : List H264Nalu}
  {rtps : List RtpPacket} {fuel fuel' : ℕ}

/-- A turn reads, and then packs what it is asked to. -/
theorem turn_ok_iff : s.turn fresh fuel = .ok (t, nalu, rtps) ↔ ∃ calls,
    s.reader.turn fresh = .ok (t.reader, nalu, calls) ∧
    PackRtpCall.sendAll fuel s.encoder calls = .ok (t.encoder, rtps) := by
  rw [turn]
  simp only [bind_eq_ok, mapError_eq_ok, Prod.exists]
  constructor
  · rintro ⟨reader, nalu', calls, hread, encoder, rtps', hsend, h⟩
    cases h
    exact ⟨calls, hread, hsend⟩
  · rintro ⟨calls, hread, hsend⟩
    exact ⟨_, _, _, hread, _, _, hsend, rfl⟩

/-- A call that returns reads as its reader does, and packs what it is asked to. -/
theorem of_readFrame (h : readFrame fresh nowTime fuel s = .ok (s', nalus, rtps)) :
    ∃ calls, EsReader.readFrame fresh nowTime fuel s.reader = .ok (s'.reader, nalus, calls) ∧
      PackRtpCall.sendAll fuel s.encoder calls = .ok (s'.encoder, rtps) := by
  induction fuel generalizing s nalus rtps with
  | zero => cases h
  | succ fuel ih =>
    rw [readFrame] at h
    rw [EsReader.readFrame]
    split_ifs at h ⊢ with hlate
    · obtain ⟨⟨t, nalu, first⟩, hturn, h⟩ := bind_eq_ok.mp h
      obtain ⟨⟨t', others, later⟩, hrest, h⟩ := bind_eq_ok.mp h
      cases h
      obtain ⟨calls, hread, hsend⟩ := turn_ok_iff.mp hturn
      obtain ⟨calls', hreads, hsends⟩ := ih hrest
      refine ⟨calls ++ calls', ?_, ?_⟩
      · rw [hread, ok_bind]
        dsimp only
        rw [hreads, ok_bind]
      · rw [PackRtpCall.sendAll_append, PackRtpCall.sendAll_of_le hsend (Nat.le_succ _), ok_bind]
        dsimp only
        rw [PackRtpCall.sendAll_of_le hsends (Nat.le_succ _), ok_bind]
    · cases h
      exact ⟨[], rfl, rfl⟩

/-- A reader that returns, and calls that come to their end. -/
theorem readFrame_of_sendAll {fuel₀ : ℕ} {r : EsReader} {e : H264RtpEncoder}
    {calls : List PackRtpCall}
    (hread : EsReader.readFrame fresh nowTime fuel s.reader = .ok (r, nalus, calls))
    (hsend : PackRtpCall.sendAll fuel₀ s.encoder calls = .ok (e, rtps)) :
    readFrame fresh nowTime (fuel + fuel₀) s = .ok (⟨r, e⟩, nalus, rtps) := by
  induction fuel generalizing s nalus calls rtps with
  | zero => cases hread
  | succ fuel ih =>
    rw [Nat.add_right_comm, readFrame]
    rcases EsReader.readFrame_cases hread with
      ⟨hlate, rfl, rfl, rfl⟩ | ⟨hlate, t, nalu, nalus', calls₁, calls', hturn, hrest, rfl, rfl⟩
    · cases hsend
      rw [hlate]
      rfl
    · -- the calls of this turn come first
      rw [PackRtpCall.sendAll_append] at hsend
      obtain ⟨⟨e₁, rtps₁⟩, hone, hsend⟩ := bind_eq_ok.mp hsend
      obtain ⟨⟨e₂, rtps₂⟩, hothers, hsend⟩ := bind_eq_ok.mp hsend
      cases hsend
      have hstep : s.turn fresh (fuel + fuel₀) = .ok (⟨t, e₁⟩, nalu, rtps₁) :=
        turn_ok_iff.mpr ⟨calls₁, hturn, PackRtpCall.sendAll_of_le hone (Nat.le_add_left _ _)⟩
      rw [if_pos hlate, hstep, ok_bind]
      dsimp only
      rw [@ih ⟨t, e₁⟩ _ _ _ hrest hothers, ok_bind]

/-- **The calls that return** are those whose reader returns, and for which all that the encoder is
asked to pack can be packed. -/
theorem returns_iff : Returns fresh nowTime s s' nalus rtps ↔ ∃ calls,
    EsReader.Returns fresh nowTime s.reader s'.reader nalus calls ∧
    ∃ fuel, PackRtpCall.sendAll fuel s.encoder calls = .ok (s'.encoder, rtps) := by
  constructor
  · rintro ⟨fuel, h⟩
    obtain ⟨calls, hread, hsend⟩ := of_readFrame h
    exact ⟨calls, ⟨fuel, hread⟩, fuel, hsend⟩
  · rintro ⟨calls, ⟨fuel, hread⟩, fuel₀, hsend⟩
    exact ⟨fuel + fuel₀, readFrame_of_sendAll hread hsend⟩

end EsSender

/-! ## Well-formed streams -/

/-- **A well-formed stream**: framed units, none of them too long. `createFromEs` accepts none that
is empty. -/
structure EsStream where
  frames : List (Bool × NalUnit)
  fits : ∀ frame ∈ frames, frame.2.Fits
  nonempty : frames ≠ []

/-- The unit is the first slice of a picture. -/
def NalUnit.decodeAble (unit : NalUnit) : Bool := (({} : H264Nalu).fill unit.bytes).decodeAble

theorem EsStream.length_pos (stream : EsStream) : 0 < stream.frames.length :=
  List.length_pos_of_ne_nil stream.nonempty

namespace EsReader

variable {fresh : H264Nalu} {stream : EsStream} {s : EsReader} {k : ℕ} {frame : Bool × NalUnit}

/-- The next unit to be read is the one at the position `k`. -/
structure At (stream : EsStream) (s : EsReader) (k : ℕ) : Prop where
  lt : k < stream.frames.length
  reader : s.reader = ⟨annexB stream.frames, annexB (stream.frames.drop k)⟩

theorem at_start (stream : EsStream) : At stream (start (annexB stream.frames)) 0 :=
  ⟨stream.length_pos, rfl⟩

/-- The unit that a turn gives to the encoder. -/
def stamp (s : EsReader) (fresh : H264Nalu) (unit : NalUnit) : H264Nalu :=
  { fresh.fill unit.bytes with dts := s.timeStamp * 90, pts := s.timeStamp * 90 }

/-- **A turn** reads the next unit, and goes on to the one behind it, from the last one to the
first. -/
theorem At.turn (h : At stream s k) (hframe : stream.frames[k]? = some frame) :
    ∃ t, s.turn fresh =
        .ok (t, s.stamp fresh frame.2, (s.units.inputFrame (s.stamp fresh frame.2)).2) ∧
      At stream t ((k + 1) % stream.frames.length) ∧
      t.timeStamp = (if frame.2.decodeAble then s.timeStamp + 40 else s.timeStamp) ∧
      t.units = (s.units.inputFrame (s.stamp fresh frame.2)).1 := by
  obtain ⟨hlt, hget⟩ := List.getElem?_eq_some_iff.mp hframe
  have hdrop : stream.frames.drop k = frame :: stream.frames.drop (k + 1) := by
    rw [← hget]
    exact List.drop_eq_getElem_cons hlt
  have hcall := fresh.getAnnexbNalu_unit frame.1 (stream.fits frame (hget ▸ List.getElem_mem hlt))
    (follows_annexB (stream.frames.drop (k + 1)))
  -- the call takes the first unit of those that are left
  have hread : s.reader.readNalu fresh = .ok (fresh.fill frame.2.bytes,
      ⟨annexB stream.frames, annexB (stream.frames.drop (k + 1))⟩) := by
    rw [NalReader.readNalu, h.reader, hdrop, annexB_cons, hcall, ok_bind]
    dsimp only
    rw [← List.drop_drop, List.drop_left, List.drop_left]
  refine ⟨⟨(⟨annexB stream.frames, annexB (stream.frames.drop (k + 1))⟩ : NalReader).rewind,
    if frame.2.decodeAble then s.timeStamp + 40 else s.timeStamp,
    (s.units.inputFrame (s.stamp fresh frame.2)).1⟩, ?_, ⟨Nat.mod_lt _ stream.length_pos, ?_⟩,
    rfl, rfl⟩
  · rw [EsReader.turn, hread, ok_bind]
    rfl
  -- behind the last unit the stream begins anew
  · exact NalReader.rewind_annexB h.lt

end EsReader

end CppServerStudio
