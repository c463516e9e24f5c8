import CppServerStudio.Library.Runs
import CppServerStudio.NetWork.Buffer

/-!
# Buffers as byte queues

What a buffer is for: a queue of bytes, with some room for prepending. Every operation on a valid
buffer succeeds under its preconditions, keeps the buffer valid and acts on its readable bytes as
its specification acts on a list of bytes.

## Main definitions

* `Buffer.Valid`: the indices are in order and in the vector
* `BufferOp`, `BufferOp.run`, `BufferOp.spec`: an operation, its code and its abstract effect
* `bufferSystem`: a new buffer and an abstract queue under the same operations

## Main results

* `Buffer.Valid.ensureWriteableBytes`: moving or resizing changes no readable byte
* `BufferOp.run_refines`: one operation
* `bufferSystem_refines`: whole runs
-/

namespace CppServerStudio

open Blocks Scanning

namespace Buffer

/-- The indices are in order and in the vector, which holds the room kept for prepending. -/
structure Valid (b : Buffer) : Prop where
  read_nonneg : 0 ≤ b.readIndex
  read_le_write : b.readIndex ≤ b.writeIndex
  write_le_size : b.writeIndex ≤ b.buffer.length
  prepend_le_size : kPrePendIndex ≤ b.buffer.length

theorem valid_new : Valid new := by
  have hlen : (8 : ℤ) ≤ new.buffer.length := by
    rw [new, List.length_replicate]
    decide
  exact ⟨by decide, le_rfl, hlen, hlen⟩

theorem readable_new : new.readable = [] := by
  rw [readable, new, List.extract_eq_take_drop, Nat.sub_self, List.take_zero]

/-- The indices of a valid buffer as natural numbers. -/
theorem Valid.exists_nat {b : Buffer} (h : Valid b) :
    ∃ (buf : Bytes) (r w : ℕ), b = ⟨buf, r, w⟩ ∧ r ≤ w ∧ w ≤ buf.length ∧ 8 ≤ buf.length := by
  obtain ⟨buf, r, w⟩ := b
  obtain ⟨h1, h2, h3, h4⟩ := h
  simp only [kPrePendIndex] at h1 h2 h3 h4
  refine ⟨buf, r.toNat, w.toNat, ?_, by omega, by omega, by omega⟩
  rw [Int.toNat_of_nonneg h1, Int.toNat_of_nonneg (by omega)]

theorem valid_nat {buf : Bytes} {r w : ℕ} (hrw : r ≤ w) (hw : w ≤ buf.length)
    (hbuf : 8 ≤ buf.length) : Valid ⟨buf, r, w⟩ :=
  ⟨Int.natCast_nonneg r, Int.ofNat_le.mpr hrw, Int.ofNat_le.mpr hw, Int.ofNat_le.mpr hbuf⟩

@[simp] theorem readable_nat (buf : Bytes) (r w : ℕ) :
    readable ⟨buf, r, w⟩ = buf.extract r w := rfl

variable {b : Buffer}

theorem Valid.length_readable (h : Valid b) : (b.readable.length : ℤ) = b.readablebytes := by
  obtain ⟨buf, r, w, rfl, hrw, hw, -⟩ := h.exists_nat
  simp only [readable_nat, readablebytes, List.extract_eq_take_drop, List.length_take,
    List.length_drop]
  omega

theorem Valid.peekAllAsString (h : Valid b) : b.peekAllAsString = .ok b.readable := by
  rw [Buffer.peekAllAsString, range,
    if_pos ⟨h.read_nonneg, h.read_le_write, h.write_le_size⟩, readable]

theorem Valid.peekAsString (h : Valid b) {n : ℕ} (hn : n ≤ b.readablebytes) :
    b.peekAsString n = .ok (b.readable.take n) := by
  obtain ⟨buf, r, w, rfl, hrw, hw, -⟩ := h.exists_nat
  simp only [readablebytes] at hn
  have hsum : (r : ℤ) + n = (r + n : ℕ) := by push_cast; rfl
  simp only [Buffer.peekAsString, range, readable_nat, hsum, Int.toNat_natCast]
  rw [if_pos (by omega), List.extract_eq_take_drop, List.extract_eq_take_drop, List.take_take,
    show r + n - r = min n (w - r) by omega]

/-- Moving the read index forward drops readable bytes. -/
theorem Valid.advance (h : Valid b) {n : ℕ} (hn : n ≤ b.readablebytes) :
    Valid { b with readIndex := b.readIndex + n } ∧
    readable { b with readIndex := b.readIndex + n } = b.readable.drop n := by
  obtain ⟨buf, r, w, rfl, hrw, hw, hbuf⟩ := h.exists_nat
  simp only [readablebytes] at hn
  have hsum : (r : ℤ) + n = (r + n : ℕ) := by push_cast; rfl
  simp only [hsum, readable_nat]
  refine ⟨valid_nat (by omega) hw hbuf, ?_⟩
  rw [List.extract_eq_take_drop, List.extract_eq_take_drop, List.drop_take, List.drop_drop,
    show w - (r + n) = w - r - n by omega]

theorem Valid.retrieveAll (h : Valid b) :
    Valid b.retrieveAll ∧ b.retrieveAll.readable = [] :=
  ⟨⟨by simp [Buffer.retrieveAll, kPrePendIndex], le_rfl, h.prepend_le_size, h.prepend_le_size⟩,
    by simp [Buffer.retrieveAll, readable]⟩

theorem Valid.retrieve (h : Valid b) {n : ℕ} (hn : n ≤ b.readablebytes) :
    ∃ b', b.retrieve n = .ok b' ∧ Valid b' ∧ b'.readable = b.readable.drop n := by
  rw [Buffer.retrieve, if_neg (by simpa using hn)]
  split_ifs with hlt
  · exact ⟨_, rfl, h.advance hn⟩
  · -- everything is retrieved
    have hlen := h.length_readable
    rw [readablebytes] at hn hlen
    refine ⟨_, rfl, h.retrieveAll.1, ?_⟩
    rw [h.retrieveAll.2, List.drop_of_length_le (by omega)]

theorem Valid.retrieveUtil (h : Valid b) {n : ℕ} (hn : n ≤ b.readablebytes) :
    ∃ b', b.retrieveUtil (b.readIndex + n) = .ok b' ∧ Valid b' ∧
      b'.readable = b.readable.drop n := by
  have hle : ¬ ¬ b.writeIndex ≥ b.readIndex + n := by
    rw [readablebytes] at hn
    omega
  rw [Buffer.retrieveUtil, if_neg hle, add_sub_cancel_left]
  exact ⟨_, rfl, h.advance hn⟩

/-- Moving the readable bytes down to the room kept for prepending. -/
theorem Valid.moveDown (h : Valid b) (hfront : kPrePendIndex ≤ b.readIndex) :
    ∃ b', b.copyWithin b.readIndex b.writeIndex kPrePendIndex = .ok { b' with
        readIndex := b.readIndex, writeIndex := b.writeIndex } ∧
      b'.readIndex = kPrePendIndex ∧ b'.writeIndex = kPrePendIndex + b.readablebytes ∧
      b'.buffer.length = b.buffer.length ∧ Valid b' ∧ b'.readable = b.readable := by
  obtain ⟨buf, r, w, rfl, hrw, hw, hbuf⟩ := h.exists_nat
  simp only [kPrePendIndex] at hfront
  -- the ranges may overlap, but the copy goes down
  have hcopy : copyForward buf r 8 (w - r) = overwrite buf 8 (buf.extract r (r + (w - r))) :=
    copyForward_eq_overwrite (by omega) (by omega)
  rw [Nat.add_sub_cancel' hrw] at hcopy
  have hlen : (buf.extract r w).length = w - r := by simp; omega
  have hfit : 8 + (buf.extract r w).length ≤ buf.length := by omega
  refine ⟨⟨overwrite buf 8 (buf.extract r w), (8 : ℕ), (8 + (w - r) : ℕ)⟩, ?_, rfl, ?_,
    length_overwrite hfit, valid_nat (by omega) ?_ ?_, ?_⟩
  · rw [copyWithin, if_pos (by simp only [kPrePendIndex]; omega), ← hcopy]
    simp [kPrePendIndex]
  · simp only [kPrePendIndex, readablebytes]
    omega
  · rw [length_overwrite hfit]
    omega
  · rw [length_overwrite hfit]
    omega
  · rw [readable_nat, readable_nat, ← hlen, extract_overwrite (by omega)]

/-- Making room changes no readable byte, whether it moves the data or resizes the vector. -/
theorem Valid.ensureWriteableBytes (h : Valid b) {len : ℤ} (hlen : 0 ≤ len) :
    ∃ b', b.ensureWriteableBytes len = .ok b' ∧ Valid b' ∧ b'.readable = b.readable ∧
      len ≤ b'.writeablebytes := by
  rw [Buffer.ensureWriteableBytes]
  split_ifs with hroom hmove
  · exact ⟨b, rfl, h, rfl, hroom⟩
  · -- there is too little room behind the data, so there is more than the reserve in front of it
    have hfront : kPrePendIndex ≤ b.readIndex := by
      simp only [prependablebytes] at hmove
      omega
    obtain ⟨b', hcopy, hr, hw, hsize, hvalid, hread⟩ := h.moveDown hfront
    refine ⟨b', ?_, hvalid, hread, ?_⟩
    · obtain ⟨buf, r, w⟩ := b'
      simp only at hr hw
      rw [hcopy, ok_bind, hr, hw]
      rfl
    · simp only [writeablebytes, prependablebytes, readablebytes] at hmove hw ⊢
      omega
  -- the vector grows
  · obtain ⟨buf, r, w, rfl, hrw, hw, hbuf⟩ := h.exists_nat
    lift len to ℕ using hlen
    simp only [writeablebytes] at hroom
    have hsum : (w : ℤ) + len = (w + len : ℕ) := by push_cast; rfl
    have hresize : resize ⟨buf, r, w⟩ (w + len) =
        ⟨buf ++ List.replicate (w + len - buf.length) NUL, r, w⟩ := by
      simp only [resize, hsum, Int.toNat_natCast]
      rw [List.take_of_length_le (by omega)]
    rw [hresize]
    refine ⟨_, rfl, valid_nat hrw (by simp; omega) (by simp; omega), ?_, ?_⟩
    · simp only [readable_nat, List.extract_eq_take_drop]
      rw [List.drop_append_of_le_length (by omega), List.take_append_of_le_length (by simp; omega)]
    · simp only [writeablebytes, List.length_append, List.length_replicate]
      omega

theorem Valid.append (h : Valid b) (message : Bytes) :
    ∃ b', b.append message = .ok b' ∧ Valid b' ∧ b'.readable = b.readable ++ message := by
  obtain ⟨b₁, hroom, hvalid, hread, hlen⟩ := h.ensureWriteableBytes
    (Int.natCast_nonneg message.length)
  obtain ⟨buf, r, w, rfl, hrw, hw, hbuf⟩ := hvalid.exists_nat
  simp only [writeablebytes] at hlen
  have hfit : w + message.length ≤ buf.length := by omega
  have hsum : (w : ℤ) + message.length = (w + message.length : ℕ) := by push_cast; rfl
  refine ⟨⟨overwrite buf w message, r, (w + message.length : ℕ)⟩, ?_,
    valid_nat (by omega) ?_ ?_, ?_⟩
  · rw [Buffer.append, hroom, ok_bind, store, if_pos (by simp only; omega), ok_bind]
    simp only [hsum, Int.toNat_natCast]
  · rw [length_overwrite hfit]
    exact hfit
  · rw [length_overwrite hfit]
    exact hbuf
  · rw [readable_nat, extract_overwrite_right hrw hw, ← hread, readable_nat]

theorem Valid.appendPrepend (h : Valid b) (message : Bytes) :
    ∃ b', b.appendPrepend message = .ok b' ∧ Valid b' ∧ b'.readable =
      if message.length ≤ b.readIndex then message ++ b.readable else b.readable := by
  rw [Buffer.appendPrepend, prependablebytes]
  split_ifs with hlt hle hle
  · omega
  · exact ⟨b, rfl, h, rfl⟩
  · obtain ⟨buf, r, w, rfl, hrw, hw, hbuf⟩ := h.exists_nat
    -- the message fits in front of the data
    have hdiff : (r : ℤ) - message.length = (r - message.length : ℕ) := by
      simp only at hle
      omega
    simp only at hle
    have hfit : r - message.length + message.length ≤ buf.length := by omega
    refine ⟨⟨overwrite buf (r - message.length) message, (r - message.length : ℕ), w⟩, ?_,
      valid_nat (by omega) ?_ ?_, ?_⟩
    · rw [store, if_pos (by simp only; omega), ok_bind]
      simp only [hdiff, Int.toNat_natCast]
    · rw [length_overwrite hfit]
      exact hw
    · rw [length_overwrite hfit]
      exact hbuf
    · have hstart : r - message.length ≤ buf.length := by omega
      have hblock := extract_overwrite_left message (w - r) hstart
      rw [show r - message.length + message.length = r by omega, Nat.add_sub_cancel' hrw] at hblock
      rw [readable_nat, hblock, readable_nat]
  · omega

end Buffer

/-! ## Operations and their specification -/

/-- A call on a buffer. The pointer of `RetrieveUtil` is given by its distance from
`beginread()`. -/
inductive BufferOp
  | append (message : Bytes)
  | appendPrepend (message : Bytes)
  | retrieve (len : ℕ)
  | retrieveAsString (len : ℕ)
  | retrieveAll
  | retrieveAllAsString
  | retrieveUtil (len : ℕ)
  | retrieveUtilAsString (len : ℕ)
  | ensureWriteableBytes (len : ℕ)

namespace BufferOp

/-- The call: the buffer after it, and the string it returns, if any. -/
def run (b : Buffer) : BufferOp → Except BufferFault (Buffer × Bytes)
  | append message => do .ok (← b.append message, [])
  | appendPrepend message => do .ok (← b.appendPrepend message, [])
  | retrieve len => do .ok (← b.retrieve len, [])
  | retrieveAsString len => b.retrieveAsString len
  | retrieveAll => .ok (b.retrieveAll, [])
  | retrieveAllAsString => b.retrieveAllAsString
  | retrieveUtil len => do .ok (← b.retrieveUtil (b.readIndex + len), [])
  | retrieveUtilAsString len => b.retrieveUtilAsString (b.readIndex + len)
  | ensureWriteableBytes len => do .ok (← b.ensureWriteableBytes len, [])

/-- **The abstract effect** of a call on a queue of bytes: the queue after it and the bytes it
returns. Prepending needs as much `front` room as the message is long, or has no effect. -/
def spec (front : ℤ) (q : Bytes) : BufferOp → Bytes × Bytes
  | append message => (q ++ message, [])
  | appendPrepend message => (if message.length ≤ front then message ++ q else q, [])
  | retrieve len => (q.drop len, [])
  | retrieveAsString len => (q.drop len, q.take len)
  | retrieveAll => ([], [])
  | retrieveAllAsString => ([], q)
  | retrieveUtil len => (q.drop len, [])
  | retrieveUtilAsString len => (q.drop len, q.take len)
  | ensureWriteableBytes _ => (q, [])

/-- The conditions of the assertions: no more is retrieved than the queue holds, and something
when all of it is returned. -/
def Met (q : Bytes) : BufferOp → Prop
  | retrieve len | retrieveAsString len | retrieveUtil len | retrieveUtilAsString len =>
    len ≤ q.length
  | retrieveAllAsString => q ≠ []
  | _ => True

/-- The room behind the data that a call asks for. -/
def room : BufferOp → ℕ
  | append message => message.length
  | ensureWriteableBytes len => len
  | _ => 0

end BufferOp

open Buffer BufferOp

theorem Buffer.Valid.retrieveAsString {b : Buffer} (h : Valid b) {n : ℕ}
    (hn : n ≤ b.readablebytes) :
    ∃ b', b.retrieveAsString n = .ok (b', b.readable.take n) ∧ Valid b' ∧
      b'.readable = b.readable.drop n := by
  obtain ⟨b', hrun, hvalid, hread⟩ := h.retrieve hn
  rw [readablebytes] at hn
  refine ⟨b', ?_, hvalid, hread⟩
  rw [Buffer.retrieveAsString, if_neg (by omega), h.peekAsString hn, ok_bind, hrun, ok_bind]

theorem Buffer.Valid.retrieveUtilAsString {b : Buffer} (h : Valid b) {n : ℕ}
    (hn : n ≤ b.readablebytes) :
    ∃ b', b.retrieveUtilAsString (b.readIndex + n) = .ok (b', b.readable.take n) ∧ Valid b' ∧
      b'.readable = b.readable.drop n := by
  obtain ⟨b', hrun, hvalid, hread⟩ := h.retrieveUtil hn
  rw [readablebytes] at hn
  refine ⟨b', ?_, hvalid, hread⟩
  rw [Buffer.retrieveUtilAsString, if_neg (by omega), add_sub_cancel_left, h.peekAsString hn,
    ok_bind, hrun, ok_bind]

theorem Buffer.Valid.retrieveAllAsString {b : Buffer} (h : Valid b) (hne : b.readable ≠ []) :
    b.retrieveAllAsString = .ok (b.retrieveAll, b.readable) := by
  have hpos := List.length_pos_of_ne_nil hne
  have hlen := h.length_readable
  rw [Buffer.retrieveAllAsString, if_neg (by omega), h.peekAllAsString, ok_bind]

/-- A call that returns no string. -/
theorem BufferOp.ok_nil {x : Except BufferFault Buffer} {b : Buffer} (h : x = .ok b) :
    (do .ok (← x, []) : Except BufferFault (Buffer × Bytes)) = .ok (b, []) := by
  rw [h, ok_bind]

theorem BufferOp.of_ok_nil {x : Except BufferFault Buffer} {b : Buffer} {out : Bytes}
    (h : (do .ok (← x, []) : Except BufferFault (Buffer × Bytes)) = .ok (b, out)) : x = .ok b := by
  obtain ⟨b₁, hx, hb⟩ := bind_eq_ok.mp h
  obtain ⟨rfl, -⟩ := Prod.mk.inj (Except.ok.inj hb)
  exact hx

/-- **One operation refines its specification**: on a valid buffer, under its preconditions, it
succeeds, keeps the buffer valid, acts on the readable bytes as specified, and leaves the room it
makes. -/
theorem BufferOp.run_refines {b : Buffer} (h : Valid b) {op : BufferOp}
    (hmet : op.Met b.readable) :
    ∃ b', op.run b = .ok (b', (op.spec b.readIndex b.readable).2) ∧ Valid b' ∧
      b'.readable = (op.spec b.readIndex b.readable).1 ∧
      ∀ len, op = .ensureWriteableBytes len → len ≤ b'.writeablebytes := by
  have hlen := h.length_readable
  cases op with
  | append message =>
    obtain ⟨b', hrun, hvalid, hread⟩ := h.append message
    exact ⟨b', ok_nil hrun, hvalid, hread, by simp⟩
  | appendPrepend message =>
    obtain ⟨b', hrun, hvalid, hread⟩ := h.appendPrepend message
    exact ⟨b', ok_nil hrun, hvalid, hread, by simp⟩
  | retrieve n =>
    simp only [Met] at hmet
    obtain ⟨b', hrun, hvalid, hread⟩ := h.retrieve (n := n) (by omega)
    exact ⟨b', ok_nil hrun, hvalid, hread, by simp⟩
  | retrieveAsString n =>
    simp only [Met] at hmet
    obtain ⟨b', hrun, hvalid, hread⟩ := h.retrieveAsString (n := n) (by omega)
    exact ⟨b', hrun, hvalid, hread, by simp⟩
  | retrieveAll => exact ⟨_, rfl, h.retrieveAll.1, h.retrieveAll.2, by simp⟩
  | retrieveAllAsString =>
    exact ⟨_, h.retrieveAllAsString hmet, h.retrieveAll.1, h.retrieveAll.2, by simp⟩
  | retrieveUtil n =>
    simp only [Met] at hmet
    obtain ⟨b', hrun, hvalid, hread⟩ := h.retrieveUtil (n := n) (by omega)
    exact ⟨b', ok_nil hrun, hvalid, hread, by simp⟩
  | retrieveUtilAsString n =>
    simp only [Met] at hmet
    obtain ⟨b', hrun, hvalid, hread⟩ := h.retrieveUtilAsString (n := n) (by omega)
    exact ⟨b', hrun, hvalid, hread, by simp⟩
  | ensureWriteableBytes n =>
    obtain ⟨b', hrun, hvalid, hread, hroom⟩ := h.ensureWriteableBytes (Int.natCast_nonneg n)
    refine ⟨b', ok_nil hrun, hvalid, hread, ?_⟩
    rintro len ⟨⟩
    exact hroom

/-! ## The size of the vector -/

namespace Buffer

variable {b b' : Buffer}

theorem length_of_copyWithin {first last dst : ℤ} (h : b.copyWithin first last dst = .ok b') :
    b'.buffer.length = b.buffer.length := by
  rw [copyWithin] at h
  split_ifs at h
  obtain rfl := Except.ok.inj h
  exact length_copyForward _ _ _ _

theorem length_of_store {dst : ℤ} {message : Bytes} (h : b.store dst message = .ok b') :
    b'.buffer.length = b.buffer.length := by
  rw [store] at h
  split_ifs at h with hfit
  obtain rfl := Except.ok.inj h
  exact length_overwrite (by omega)

theorem length_of_ensureWriteableBytes {len : ℕ} (h : b.ensureWriteableBytes len = .ok b') :
    (b'.buffer.length : ℤ) = b.buffer.length ∨ (b'.buffer.length : ℤ) = b.writeIndex + len := by
  rw [ensureWriteableBytes] at h
  split_ifs at h with hroom hmove
  · obtain rfl := Except.ok.inj h
    exact Or.inl rfl
  · obtain ⟨b₁, hcopy, hb⟩ := bind_eq_ok.mp h
    obtain rfl := Except.ok.inj hb
    have hlen := length_of_copyWithin hcopy
    exact Or.inl (by simp only [hlen])
  · obtain rfl := Except.ok.inj h
    rw [writeablebytes] at hroom
    right
    simp only [resize, List.length_append, List.length_take, List.length_replicate]
    omega

theorem readIndex_of_append {message : Bytes} (h : b.append message = .ok b') :
    b'.readIndex = b.readIndex ∨ b'.readIndex = kPrePendIndex := by
  obtain ⟨b₁, hroom, h⟩ := bind_eq_ok.mp h
  obtain ⟨b₂, hstore, h⟩ := bind_eq_ok.mp h
  obtain rfl := Except.ok.inj h
  have hstored : b₂.readIndex = b₁.readIndex := by
    rw [store] at hstore
    split_ifs at hstore
    rw [← Except.ok.inj hstore]
  rw [ensureWriteableBytes] at hroom
  split_ifs at hroom
  · obtain rfl := Except.ok.inj hroom
    exact Or.inl hstored
  · obtain ⟨b₃, -, hb⟩ := bind_eq_ok.mp hroom
    obtain rfl := Except.ok.inj hb
    exact Or.inr hstored
  · obtain rfl := Except.ok.inj hroom
    exact Or.inl hstored

theorem length_of_appendPrepend {message : Bytes} (h : b.appendPrepend message = .ok b') :
    b'.buffer.length = b.buffer.length := by
  rw [appendPrepend] at h
  split_ifs at h
  · rw [Except.ok.inj h]
  · obtain ⟨b₁, hstore, hb⟩ := bind_eq_ok.mp h
    obtain rfl := Except.ok.inj hb
    have hlen := length_of_store hstore
    exact hlen

theorem length_of_append {message : Bytes} (h : b.append message = .ok b') :
    (b'.buffer.length : ℤ) = b.buffer.length ∨
    (b'.buffer.length : ℤ) = b.writeIndex + message.length := by
  obtain ⟨b₁, hroom, h⟩ := bind_eq_ok.mp h
  obtain ⟨b₂, hstore, h⟩ := bind_eq_ok.mp h
  obtain rfl := Except.ok.inj h
  simp only [length_of_store hstore]
  exact length_of_ensureWriteableBytes hroom

theorem buffer_of_retrieve {len : ℤ} (h : b.retrieve len = .ok b') : b'.buffer = b.buffer := by
  rw [retrieve] at h
  split_ifs at h <;> obtain rfl := Except.ok.inj h <;> rfl

theorem buffer_of_retrieveUtil {last : ℤ} (h : b.retrieveUtil last = .ok b') :
    b'.buffer = b.buffer := by
  rw [retrieveUtil] at h
  split_ifs at h
  obtain rfl := Except.ok.inj h
  rfl

end Buffer

/-- A call leaves the vector's size as it is, or makes it just large enough. -/
theorem BufferOp.length_of_run {b b' : Buffer} {op : BufferOp} {out : Bytes}
    (h : op.run b = .ok (b', out)) : (b'.buffer.length : ℤ) = b.buffer.length ∨
      (b'.buffer.length : ℤ) = b.writeIndex + op.room := by
  cases op with
  | append message => exact length_of_append (of_ok_nil h)
  | ensureWriteableBytes len => exact length_of_ensureWriteableBytes (of_ok_nil h)
  | appendPrepend message => exact Or.inl (congrArg _ (length_of_appendPrepend (of_ok_nil h)))
  | retrieve len => exact Or.inl (by rw [buffer_of_retrieve (of_ok_nil h)])
  | retrieveUtil len => exact Or.inl (by rw [buffer_of_retrieveUtil (of_ok_nil h)])
  -- the calls that also give the bytes take them as `retrieve` does
  | retrieveAsString len =>
    rw [BufferOp.run, Buffer.retrieveAsString] at h
    split_ifs at h
    simp only [bind_eq_ok, Except.ok.injEq, Prod.mk.injEq] at h
    obtain ⟨_, -, b₁, hrun, rfl, -⟩ := h
    exact Or.inl (by rw [buffer_of_retrieve hrun])
  | retrieveUtilAsString len =>
    rw [BufferOp.run, Buffer.retrieveUtilAsString] at h
    split_ifs at h
    simp only [bind_eq_ok, Except.ok.injEq, Prod.mk.injEq] at h
    obtain ⟨_, -, b₁, hrun, rfl, -⟩ := h
    exact Or.inl (by rw [buffer_of_retrieveUtil hrun])
  | retrieveAll =>
    obtain ⟨rfl, -⟩ := Prod.mk.inj (Except.ok.inj h)
    exact Or.inl rfl
  | retrieveAllAsString =>
    rw [BufferOp.run, Buffer.retrieveAllAsString] at h
    split_ifs at h
    simp only [bind_eq_ok, Except.ok.injEq, Prod.mk.injEq] at h
    obtain ⟨_, -, rfl, -⟩ := h
    exact Or.inl rfl

/-! ## Runs -/

/-- The preconditions of a call: its assertions hold, and the sizes it computes fit an `int`. -/
structure BufferOp.Admissible (b : Buffer) (op : BufferOp) : Prop where
  met : op.Met b.readable
  write_lt : b.writeIndex + op.room < 2 ^ 31
  prepend_lt : kPrePendIndex + op.room < 2 ^ 31

/-- **A buffer and a queue** under the same calls, each of them admissible. -/
def bufferSystem : LTS (Buffer × Bytes) BufferOp where
  init s := s = (Buffer.new, [])
  step s op t := op.Admissible s.1 ∧ (op.run s.1).map Prod.fst = .ok t.1 ∧
    t.2 = (op.spec s.1.readIndex s.2).1

/-- The buffer of a run is valid, of a size that fits an `int`, and holds the bytes of the
queue. -/
theorem bufferSystem_invariant {ops : List BufferOp} {s : Buffer × Bytes}
    (h : bufferSystem.Run ops s) :
    Valid s.1 ∧ (s.1.buffer.length : ℤ) < 2 ^ 31 ∧ s.1.readable = s.2 := by
  refine h.invariant (I := fun s : Buffer × Bytes =>
    Valid s.1 ∧ (s.1.buffer.length : ℤ) < 2 ^ 31 ∧ s.1.readable = s.2) ?_ ?_
  · rintro s rfl
    refine ⟨valid_new, ?_, readable_new⟩
    rw [Buffer.new, List.length_replicate]
    decide
  · rintro ⟨b, q⟩ op ⟨b', q'⟩ ⟨hvalid, hsize, hq⟩ ⟨hop, hrun, hq'⟩
    simp only at hvalid hsize hq hop hrun hq'
    subst hq hq'
    obtain ⟨b₁, hb₁, hvalid', hread', -⟩ := run_refines hvalid hop.met
    simp only [hb₁, Except.map, Except.ok.injEq] at hrun
    subst hrun
    refine ⟨hvalid', ?_, hread'⟩
    have hlt := hop.write_lt
    rcases length_of_run hb₁ with hlen | hlen <;> simp only <;> omega

/-- **The buffer refines a byte queue**: at every point of a run of admissible calls on a new
buffer the indices are in order and in the vector, and the readable bytes are those of the queue.
Every admissible call then goes on with the run, returns the bytes that the queue returns, and
leaves the room it makes. -/
theorem bufferSystem_refines {ops : List BufferOp} {b : Buffer} {q : Bytes}
    (h : bufferSystem.Run ops (b, q)) :
    (0 ≤ b.readIndex ∧ b.readIndex ≤ b.writeIndex ∧ b.writeIndex ≤ b.buffer.length) ∧
    (b.buffer.length : ℤ) < 2 ^ 31 ∧ b.readable = q ∧
    ∀ op : BufferOp, op.Admissible b → ∃ b',
      op.run b = .ok (b', (op.spec b.readIndex q).2) ∧
      bufferSystem.Run (ops ++ [op]) (b', (op.spec b.readIndex q).1) ∧
      ∀ len, op = .ensureWriteableBytes len → b'.readable = q ∧ len ≤ b'.writeablebytes := by
  obtain ⟨hvalid, hsize, hread⟩ := bufferSystem_invariant h
  simp only at hvalid hsize hread
  subst hread
  refine ⟨⟨hvalid.read_nonneg, hvalid.read_le_write, hvalid.write_le_size⟩, hsize, rfl, ?_⟩
  intro op hop
  obtain ⟨b', hrun, -, hread', hroom⟩ := run_refines hvalid hop.met
  refine ⟨b', hrun, h.snoc ⟨hop, by simp [hrun, Except.map], rfl⟩, ?_⟩
  rintro len rfl
  exact ⟨hread', hroom len rfl⟩

/-- Three bytes are appended to a new buffer, and the first of them retrieved. -/
theorem bufferSystem_refines_append_retrieve :
    ∃ b, bufferSystem.Run [.append (ofString "GET"), .retrieve 1] (b, ofString "ET") ∧
      b.readable = ofString "ET" := by
  obtain ⟨-, -, -, hnext⟩ := bufferSystem_refines (.nil rfl : bufferSystem.Run [] (Buffer.new, []))
  obtain ⟨b₁, -, hrun₁, -⟩ := hnext (.append (ofString "GET")) ⟨trivial, by decide, by decide⟩
  obtain ⟨hidx, hsize, hread, hnext⟩ := bufferSystem_refines hrun₁
  have hmet : (BufferOp.retrieve 1).Met b₁.readable := by
    rw [hread]
    show 1 ≤ (ofString "GET").length
    decide
  obtain ⟨b₂, -, hrun₂, -⟩ := hnext (.retrieve 1) ⟨hmet, by simp only [room]; omega, by decide⟩
  exact ⟨b₂, hrun₂, (bufferSystem_refines hrun₂).2.2.1⟩

end CppServerStudio
