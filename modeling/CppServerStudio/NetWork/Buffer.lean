import CppServerStudio.Library.Blocks
import CppServerStudio.Library.Scanning
import CppServerStudio.Util.Bytes

/-!
# The network buffer

`Buffer` is a vector with two indices: the bytes between them are readable, those behind
`write_index_` are writable, and those in front of `read_index_` are free for prepending.

The `int` indices are integers here, and their sums are exact: the sizes of the buffers of a run
stay below `2 ^ 31`. `Buffer.FitsInt` says when the sums of an `Append` do. A pointer into the
vector is its distance from `begin()`, and a message with its length is the list of its bytes.

## Main definitions

* `BufferFault`: a failed assertion, or an access outside the vector
* `Buffer` and its operations
* `Buffer.readable`: the bytes between the two indices
* `Buffer.FitsInt`: no sum of an `Append` overflows
-/

namespace CppServerStudio

open Blocks Scanning

/-- How an operation on a buffer can fail. -/
inductive BufferFault
  | assertFailed
  | outOfRange
  deriving DecidableEq, Repr

def kPrePendIndex : ℤ := 8
def kInitalSize : ℕ := 1024

/-- The vector and the two indices. -/
structure Buffer where
  buffer : Bytes
  readIndex : ℤ
  writeIndex : ℤ
  deriving DecidableEq

namespace Buffer

/-- A new buffer. -/
def new : Buffer := ⟨List.replicate kInitalSize NUL, kPrePendIndex, kPrePendIndex⟩

def readablebytes (b : Buffer) : ℤ := b.writeIndex - b.readIndex

def writeablebytes (b : Buffer) : ℤ := b.buffer.length - b.writeIndex

def prependablebytes (b : Buffer) : ℤ := b.readIndex

/-- The bytes between the two indices. -/
def readable (b : Buffer) : Bytes := b.buffer.extract b.readIndex.toNat b.writeIndex.toNat

/-- The bytes of the vector between two pointers. -/
def range (b : Buffer) (first last : ℤ) : Except BufferFault Bytes :=
  if 0 ≤ first ∧ first ≤ last ∧ last ≤ b.buffer.length then
    .ok (b.buffer.extract first.toNat last.toNat)
  else .error .outOfRange

/-- `std::copy` of a message to a pointer into the vector. -/
def store (b : Buffer) (dst : ℤ) (message : Bytes) : Except BufferFault Buffer :=
  if 0 ≤ dst ∧ dst + message.length ≤ b.buffer.length then
    .ok { b with buffer := overwrite b.buffer dst.toNat message }
  else .error .outOfRange

/-- `std::copy` of a range of the vector to a pointer into it. -/
def copyWithin (b : Buffer) (first last dst : ℤ) : Except BufferFault Buffer :=
  if 0 ≤ first ∧ first ≤ last ∧ last ≤ b.buffer.length ∧ 0 ≤ dst ∧
      dst + (last - first) ≤ b.buffer.length then
    .ok { b with buffer := copyForward b.buffer first.toNat dst.toNat (last - first).toNat }
  else .error .outOfRange

/-- `buffer_.resize(size)`: new elements are zero. -/
def resize (b : Buffer) (size : ℤ) : Buffer :=
  { b with buffer := b.buffer.take size.toNat ++
      List.replicate (size.toNat - b.buffer.length) NUL }

def ensureWriteableBytes (b : Buffer) (len : ℤ) : Except BufferFault Buffer :=
  if b.writeablebytes ≥ len then .ok b
  else if b.writeablebytes + b.prependablebytes ≥ kPrePendIndex + len then do
    let b ← b.copyWithin b.readIndex b.writeIndex kPrePendIndex
    .ok { b with writeIndex := kPrePendIndex + b.readablebytes, readIndex := kPrePendIndex }
  else .ok (b.resize (b.writeIndex + len))

/-- The sums that `EnsureWriteableBytes` computes for `len` bytes fit an `int`. -/
def FitsInt (b : Buffer) (len : ℤ) : Prop :=
  b.writeablebytes ≥ len ∨ kPrePendIndex + len < 2 ^ 31 ∧
    (b.writeablebytes + b.prependablebytes ≥ kPrePendIndex + len ∨ b.writeIndex + len < 2 ^ 31)

instance (b : Buffer) (len : ℤ) : Decidable (b.FitsInt len) := by
  unfold FitsInt
  infer_instance

def appendPrepend (b : Buffer) (message : Bytes) : Except BufferFault Buffer :=
  if message.length > b.prependablebytes then .ok b
  else do
    let b ← b.store (b.readIndex - message.length) message
    .ok { b with readIndex := b.readIndex - message.length }

def append (b : Buffer) (message : Bytes) : Except BufferFault Buffer := do
  let b ← b.ensureWriteableBytes message.length
  let b ← b.store b.writeIndex message
  .ok { b with writeIndex := b.writeIndex + message.length }

def peekAsString (b : Buffer) (len : ℤ) : Except BufferFault Bytes :=
  b.range b.readIndex (b.readIndex + len)

def peekAllAsString (b : Buffer) : Except BufferFault Bytes := b.range b.readIndex b.writeIndex

def retrieveAll (b : Buffer) : Buffer :=
  { b with writeIndex := kPrePendIndex, readIndex := kPrePendIndex }

def retrieve (b : Buffer) (len : ℤ) : Except BufferFault Buffer :=
  if ¬ b.readablebytes ≥ len then .error .assertFailed
  else if len + b.readIndex < b.writeIndex then .ok { b with readIndex := b.readIndex + len }
  else .ok b.retrieveAll

def retrieveUtil (b : Buffer) (last : ℤ) : Except BufferFault Buffer :=
  if ¬ b.writeIndex ≥ last then .error .assertFailed
  else .ok { b with readIndex := b.readIndex + (last - b.readIndex) }

def retrieveAsString (b : Buffer) (len : ℤ) : Except BufferFault (Buffer × Bytes) :=
  if ¬ b.readIndex + len ≤ b.writeIndex then .error .assertFailed
  else do
    let ret ← b.peekAsString len
    let b ← b.retrieve len
    .ok (b, ret)

def retrieveUtilAsString (b : Buffer) (last : ℤ) : Except BufferFault (Buffer × Bytes) :=
  if ¬ b.writeIndex ≥ last then .error .assertFailed
  else do
    let ret ← b.peekAsString (last - b.readIndex)
    let b ← b.retrieveUtil last
    .ok (b, ret)

def retrieveAllAsString (b : Buffer) : Except BufferFault (Buffer × Bytes) :=
  if ¬ b.readablebytes > 0 then .error .assertFailed
  else do
    let ret ← b.peekAllAsString
    .ok (b.retrieveAll, ret)

end Buffer

end CppServerStudio
