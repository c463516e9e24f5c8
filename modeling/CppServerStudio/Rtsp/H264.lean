import CppServerStudio.Library.Scanning
import CppServerStudio.Util.Bytes

/-!
# NAL units

`H264Nalu::get_annexb_nalu` cuts the first NAL unit off a byte stream in which a start code stands
before each unit. A `std::string` ends in a NUL, so its data may be read up to there; a read past
it, and a position that does not fit in an `int`, are faults of the model. A read of `stream[i + 2]`
is made only if the bytes before it did not decide the test, as `||` and `&&` have it.

## Main definitions

* `H264Nalu`, with `H264Nalu.keyFrame`, `H264Nalu.dropAble`, `H264Nalu.decodeAble`: a unit
* `H264Nalu.getAnnexbNalu`: the first unit of a byte stream, and where it ends
* `NalReader.readNalu`, `NalReader.rewind`: how a stream is read, and read again from its start
-/

namespace CppServerStudio

open Scanning

inductive NalFault
  | overread
  | intOverflow
  | outOfFuel
  deriving DecidableEq, Repr

/-- What is used of an `H264Nalu`. -/
structure H264Nalu where
  len : ℕ := 0
  forbiddenBit : Byte := 0
  nalReferenceIdc : Byte := 0
  nalUnitType : Byte := 0
  buffer : Bytes := []
  dts : UInt32 := 0
  pts : UInt32 := 0
  deriving DecidableEq

def nalBP : Byte := 1
def nalIdr : Byte := 5
def nalSei : Byte := 6
def nalSps : Byte := 7
def nalPps : Byte := 8
def nalAud : Byte := 9

/-- The start codes. -/
def startCode3 : Bytes := [0, 0, 1]
def startCode4 : Bytes := [0, 0, 0, 1]

/-- `data[i]` of a string, which ends in a NUL. -/
def charAt (data : Bytes) (i : ℕ) : Except NalFault Byte :=
  if i ≤ data.length then .ok (data.getD i NUL) else .error .overread

/-- The test for `code` at `i`, a byte at a time until one differs. -/
def matchAt (data : Bytes) (i : ℕ) : Bytes → Except NalFault Bool
  | [] => .ok true
  | b :: code => do
    if (← charAt data i) = b then matchAt data (i + 1) code else .ok false

/-- Neither code is at `i`; the second one is looked for only if the first is not there. -/
def noneAt (data : Bytes) (i : ℕ) (code code' : Bytes) : Except NalFault Bool := do
  if ← matchAt data i code then .ok false
  else do
    let found ← matchAt data i code'
    .ok !found

namespace H264Nalu

/-- The first loop of `get_annexb_nalu`, for at most `fuel` turns. Its condition looks at the start
of the stream in each turn. There is no result where the call returns 0. -/
def startLoop (data : Bytes) : ℕ → ℕ → Except NalFault (Option ℕ)
  | 0, _ => .error .outOfFuel
  | fuel + 1, i => do
    if ← noneAt data 0 startCode3 startCode4 then
      if 2 ^ 31 ≤ i + 5 then .error .intOverflow
      else if data.length < i + 5 then .ok none
      else startLoop data fuel (i + 1)
    else .ok (some i)

/-- The second loop of `get_annexb_nalu`: `nal_end`, the position of the next start code, or the
size of the stream once fewer than four bytes are left. -/
def endLoop (data : Bytes) : ℕ → ℕ → Except NalFault ℕ
  | 0, _ => .error .outOfFuel
  | fuel + 1, i => do
    if ← noneAt data i startCode4 startCode3 then
      if 2 ^ 31 ≤ i + 4 then .error .intOverflow
      else if data.length ≤ i + 4 then .ok data.length
      else endLoop data fuel (i + 1)
    else .ok i

/-- The fields that `get_annexb_nalu` sets from the bytes of the unit. -/
def fill (nalu : H264Nalu) (unit : Bytes) : H264Nalu :=
  let b := unit.getD 0 NUL
  { nalu with
    len := unit.length
    buffer := unit
    forbiddenBit := b &&& 0x80
    nalReferenceIdc := b &&& 0x60
    nalUnitType := b &&& 0x1F }

/-- **`H264Nalu::get_annexb_nalu`**: the unit, and the number of bytes up to its end, 0 if none was
found. -/
def getAnnexbNalu (nalu : H264Nalu) (data : Bytes) : Except NalFault (H264Nalu × ℕ) := do
  match ← startLoop data (data.length + 1) 0 with
  | none => .ok (nalu, 0)
  | some i => do
    let i := if ← matchAt data 0 startCode3 then i else i + 1
    if ← matchAt data i startCode3 then
      let nalStart := i + 3
      let nalEnd ← endLoop data (data.length + 1) nalStart
      if nalStart ≤ nalEnd ∧ nalEnd ≤ data.length then
        .ok (nalu.fill (data.extract nalStart nalEnd), nalEnd)
      else .error .overread
    else .ok (nalu, 0)

/-- **`decodeAble`**: a slice, the first of its picture. A unit of these types has a byte, so
`buf[1]` is its second byte or the NUL. -/
def decodeAble (nalu : H264Nalu) : Bool :=
  nalBP ≤ nalu.nalUnitType && nalu.nalUnitType ≤ nalIdr && nalu.buffer.getD 1 NUL &&& 0x80 ≠ 0

def keyFrame (nalu : H264Nalu) : Bool := nalu.nalUnitType = nalIdr && nalu.decodeAble

def dropAble (nalu : H264Nalu) : Bool := nalu.nalUnitType = nalSei || nalu.nalUnitType = nalAud

end H264Nalu

/-- The bytes of a stream, and those from `data_` on, which are `size_` many. -/
structure NalReader where
  stream : Bytes
  data : Bytes

namespace NalReader

/-- `data_` and `size_` are set to the whole stream. -/
def start (stream : Bytes) : NalReader := ⟨stream, stream⟩

/-- A call of `get_annexb_nalu` for an object, after which `data_` and `size_` move on. -/
def readNalu (r : NalReader) (nalu : H264Nalu) : Except NalFault (H264Nalu × NalReader) := do
  let (nalu, naluLen) ← nalu.getAnnexbNalu r.data
  .ok (nalu, { r with data := r.data.drop naluLen })

/-- `readFrame` begins again once `size_` is 0. -/
def rewind (r : NalReader) : NalReader := if r.data.length = 0 then start r.stream else r

/-- Calls as long as `size_` is not 0, for at most `fuel` turns. `fresh` is what a new object
holds. -/
def readAll (fresh : H264Nalu) : ℕ → NalReader → Except NalFault (List H264Nalu)
  | 0, _ => .error .outOfFuel
  | fuel + 1, r =>
    if r.data.length = 0 then .ok []
    else do
      let (nalu, r) ← r.readNalu fresh
      let nalus ← readAll fresh fuel r
      .ok (nalu :: nalus)

/-- The units that `n` turns of the loop of `readFrame` read. -/
def readFrames (fresh : H264Nalu) : ℕ → NalReader → Except NalFault (List H264Nalu × NalReader)
  | 0, r => .ok ([], r)
  | n + 1, r => do
    let (nalu, r) ← r.readNalu fresh
    let (nalus, r) ← readFrames fresh n r.rewind
    .ok (nalu :: nalus, r)

end NalReader

end CppServerStudio
