import CppServerStudio.Util.Bytes

/-!
# Buffers of a fixed size

A `FixedBuffer` is an array with a pointer behind the bytes written so far. An `append` that does
not fit is dropped, and so is one that would fill the last byte.

## Main definitions

* `FixedBuffer`, with `FixedBuffer.avail`, `FixedBuffer.append`, `FixedBuffer.bzero`
* `FixedBuffer.Copies`: the byte strings that `append` copies
-/

namespace CppServerStudio

/-- The bytes between `data_` and `cur_`, of an array of `size` bytes. -/
structure FixedBuffer (size : ℕ) where
  data : Bytes := []
  le_size : data.length ≤ size := by exact Nat.zero_le _
  deriving DecidableEq

def fixedLargeBufferSize : ℕ := 4096 * 1000

namespace FixedBuffer

variable {size : ℕ}

def len (b : FixedBuffer size) : ℕ := b.data.length

def avail (b : FixedBuffer size) : ℕ := size - b.len

/-- `append` copies these bytes. -/
def Copies (b : FixedBuffer size) (buf : Bytes) : Prop := buf.length < b.avail

instance (b : FixedBuffer size) (buf : Bytes) : Decidable (b.Copies buf) :=
  inferInstanceAs (Decidable (_ < _))

theorem length_append_le {b : FixedBuffer size} {buf : Bytes} (h : b.Copies buf) :
    (b.data ++ buf).length ≤ size := by
  rw [Copies, avail, len] at h
  rw [List.length_append]
  omega

/-- **`append`**: nothing is copied unless a byte is left over. -/
def append (b : FixedBuffer size) (buf : Bytes) : FixedBuffer size :=
  if h : b.Copies buf then ⟨b.data ++ buf, length_append_le h⟩ else b

/-- The buffer is emptied. -/
def bzero (_ : FixedBuffer size) : FixedBuffer size := {}

theorem data_append (b : FixedBuffer size) (buf : Bytes) :
    (b.append buf).data = b.data ++ if b.Copies buf then buf else [] := by
  unfold append
  split_ifs
  · rfl
  · exact (List.append_nil _).symm

@[simp] theorem avail_empty : ({} : FixedBuffer size).avail = size := Nat.sub_zero _

end FixedBuffer

end CppServerStudio
