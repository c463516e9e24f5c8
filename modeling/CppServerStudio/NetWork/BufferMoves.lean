import CppServerStudio.NetWork.ByteQueue

/-!
# Moving buffers

The move constructor and the move assignment of a `Buffer` take the vector of another one, which is
left empty, and copy the two indices, which are left as they are. The indices of the other buffer
then point behind the end of its vector.

## Main definitions

* `Buffer.moveConstruct`, `Buffer.moveAssign`: the two moves
* `bufferObjects`: the runs of any number of buffers
* `MoveKeepsBoth`: a move leaves two buffers in order, one with the bytes and one without

## Main results

* `Buffer.Ordered.append_moved`: an `Append` to a buffer that was moved from makes its former
  readable bytes readable as zeros
* `ordered_of_run`: the indices of each buffer of a run
* `not_moveKeepsBoth`: no move keeps both buffers in order
-/

namespace CppServerStudio

open Blocks Scanning

namespace Buffer

/-- A vector that is moved from is empty. -/
def moved (buf : Buffer) : Buffer := { buf with buffer := [] }

/-- **The move constructor**: the new buffer, and the one that is moved from. -/
def moveConstruct (buf : Buffer) : Buffer × Buffer :=
  (⟨buf.buffer, buf.readIndex, buf.writeIndex⟩, buf.moved)

/-- `buffer_.clear()`, and the indices of a new buffer. -/
def cleared (b : Buffer) : Buffer :=
  { b with buffer := [], readIndex := kPrePendIndex, writeIndex := kPrePendIndex }

/-- **The move assignment** of another buffer: the buffer, and the one that is moved from. -/
def moveAssign (b buf : Buffer) : Buffer × Buffer :=
  let b := { b.cleared with buffer := buf.buffer }
  ({ b with readIndex := buf.readIndex, writeIndex := buf.writeIndex }, buf.moved)

/-- The indices are in order and in the vector. -/
structure InOrder (b : Buffer) : Prop where
  read_nonneg : 0 ≤ b.readIndex
  read_le_write : b.readIndex ≤ b.writeIndex
  write_le_size : b.writeIndex ≤ b.buffer.length

/-- The write index never lies in the room kept for prepending. -/
structure Ordered (b : Buffer) : Prop where
  read_nonneg : 0 ≤ b.readIndex
  read_le_write : b.readIndex ≤ b.writeIndex
  prepend_le_write : kPrePendIndex ≤ b.writeIndex

variable {b b' : Buffer}

theorem ordered_new : Ordered new := ⟨by decide, le_rfl, le_rfl⟩

theorem Ordered.moved (h : Ordered b) : Ordered b.moved :=
  ⟨h.read_nonneg, h.read_le_write, h.prepend_le_write⟩

/-- A buffer that was moved from is out of order. -/
theorem Ordered.not_inOrder_moved (h : Ordered b) : ¬ InOrder b.moved := by
  intro horder
  have hsize : b.writeIndex ≤ ((0 : ℕ) : ℤ) := horder.write_le_size
  have hwrite := h.prepend_le_write
  rw [kPrePendIndex] at hwrite
  omega

theorem Ordered.of_store {dst : ℤ} {message : Bytes} (h : Ordered b)
    (hstore : b.store dst message = .ok b') : Ordered b' := by
  rw [store] at hstore
  split_ifs at hstore
  obtain rfl := Except.ok.inj hstore
  exact ⟨h.read_nonneg, h.read_le_write, h.prepend_le_write⟩

theorem Ordered.of_ensureWriteableBytes {len : ℤ} (h : Ordered b)
    (hrun : b.ensureWriteableBytes len = .ok b') : Ordered b' := by
  rw [ensureWriteableBytes] at hrun
  split_ifs at hrun
  · obtain rfl := Except.ok.inj hrun
    exact h
  · obtain ⟨b₁, hcopy, hb⟩ := bind_eq_ok.mp hrun
    obtain rfl := Except.ok.inj hb
    rw [copyWithin] at hcopy
    split_ifs at hcopy
    obtain rfl := Except.ok.inj hcopy
    have hread := h.read_le_write
    constructor
    · exact (by decide : (0 : ℤ) ≤ kPrePendIndex)
    · simp only [readablebytes]
      omega
    · simp only [readablebytes]
      omega
  · obtain rfl := Except.ok.inj hrun
    exact ⟨h.read_nonneg, h.read_le_write, h.prepend_le_write⟩

theorem Ordered.of_append {message : Bytes} (h : Ordered b) (hrun : b.append message = .ok b') :
    Ordered b' := by
  obtain ⟨b₁, hroom, hrun⟩ := bind_eq_ok.mp hrun
  obtain ⟨b₂, hstore, hrun⟩ := bind_eq_ok.mp hrun
  obtain rfl := Except.ok.inj hrun
  have h₂ := (h.of_ensureWriteableBytes hroom).of_store hstore
  have hread := h₂.read_le_write
  have hwrite := h₂.prepend_le_write
  exact ⟨h₂.read_nonneg, by simp only; omega, by simp only; omega⟩

theorem Ordered.of_appendPrepend {message : Bytes} (h : Ordered b)
    (hrun : b.appendPrepend message = .ok b') : Ordered b' := by
  rw [appendPrepend] at hrun
  split_ifs at hrun with hlong
  · obtain rfl := Except.ok.inj hrun
    exact h
  · obtain ⟨b₁, hstore, hb⟩ := bind_eq_ok.mp hrun
    obtain rfl := Except.ok.inj hb
    rw [store] at hstore
    split_ifs at hstore
    obtain rfl := Except.ok.inj hstore
    have hread := h.read_nonneg
    have hle := h.read_le_write
    rw [prependablebytes] at hlong
    exact ⟨by simp only; omega, by simp only; omega, h.prepend_le_write⟩

theorem ordered_retrieveAll (b : Buffer) : Ordered b.retrieveAll :=
  ⟨(by decide : (0 : ℤ) ≤ kPrePendIndex), le_rfl, le_rfl⟩

theorem Ordered.of_retrieve {len : ℕ} (h : Ordered b) (hrun : b.retrieve len = .ok b') :
    Ordered b' := by
  rw [retrieve] at hrun
  split_ifs at hrun with hlong hpart
  · obtain rfl := Except.ok.inj hrun
    have hread := h.read_nonneg
    exact ⟨by simp only; omega, by simp only; omega, h.prepend_le_write⟩
  · obtain rfl := Except.ok.inj hrun
    exact ordered_retrieveAll b

theorem Ordered.of_retrieveUtil {len : ℕ} (h : Ordered b)
    (hrun : b.retrieveUtil (b.readIndex + len) = .ok b') : Ordered b' := by
  rw [retrieveUtil] at hrun
  split_ifs at hrun with hlong
  obtain rfl := Except.ok.inj hrun
  have hread := h.read_nonneg
  exact ⟨by simp only; omega, by simp only; omega, h.prepend_le_write⟩

/-- **One call** that succeeds keeps the indices ordered, also of a buffer that was moved from. -/
theorem Ordered.of_run {op : BufferOp} {out : Bytes} (h : Ordered b)
    (hrun : op.run b = .ok (b', out)) : Ordered b' := by
  cases op with
  | append message => exact h.of_append (BufferOp.of_ok_nil hrun)
  | appendPrepend message => exact h.of_appendPrepend (BufferOp.of_ok_nil hrun)
  | retrieve len => exact h.of_retrieve (BufferOp.of_ok_nil hrun)
  | retrieveUtil len => exact h.of_retrieveUtil (BufferOp.of_ok_nil hrun)
  | ensureWriteableBytes len => exact h.of_ensureWriteableBytes (BufferOp.of_ok_nil hrun)
  | retrieveAll =>
    obtain ⟨rfl, -⟩ := Prod.mk.inj (Except.ok.inj hrun)
    exact ordered_retrieveAll b
  -- the calls that also give the bytes take them as `retrieve` does
  | retrieveAsString len =>
    rw [BufferOp.run, Buffer.retrieveAsString] at hrun
    split_ifs at hrun
    simp only [bind_eq_ok, Except.ok.injEq, Prod.mk.injEq] at hrun
    obtain ⟨_, -, b₁, hretrieve, rfl, -⟩ := hrun
    exact h.of_retrieve hretrieve
  | retrieveUtilAsString len =>
    rw [BufferOp.run, Buffer.retrieveUtilAsString] at hrun
    split_ifs at hrun
    simp only [bind_eq_ok, Except.ok.injEq, Prod.mk.injEq] at hrun
    obtain ⟨_, -, b₁, hretrieve, rfl, -⟩ := hrun
    exact h.of_retrieveUtil hretrieve
  | retrieveAllAsString =>
    rw [BufferOp.run, Buffer.retrieveAllAsString] at hrun
    split_ifs at hrun
    simp only [bind_eq_ok, Except.ok.injEq, Prod.mk.injEq] at hrun
    obtain ⟨_, -, rfl, -⟩ := hrun
    exact ordered_retrieveAll b

/-! ## A buffer that was moved from -/

/-- **An `Append` to a buffer that was moved from** grows the vector: as many bytes as were readable
before are readable again, all of them zero. -/
theorem Ordered.append_moved (h : Ordered b) (message : Bytes) : ∃ b',
    b.moved.append message = .ok b' ∧ Valid b' ∧
      b'.readable = List.replicate b.readablebytes.toNat NUL ++ message := by
  obtain ⟨buf, r, w⟩ := b
  obtain ⟨hread, hle, hwrite⟩ := h
  simp only [kPrePendIndex] at hread hle hwrite
  obtain ⟨r, rfl⟩ := Int.eq_ofNat_of_zero_le hread
  obtain ⟨w, rfl⟩ := Int.eq_ofNat_of_zero_le (show 0 ≤ w by omega)
  have hlen : ((w : ℤ) + message.length).toNat = w + message.length := by omega
  -- the vector behind `resize`
  obtain ⟨zeros, hzeros, hlength⟩ : ∃ zeros : Bytes,
      zeros = List.replicate (w + message.length) NUL ∧ zeros.length = w + message.length :=
    ⟨_, rfl, List.length_replicate⟩
  have hresize : (⟨[], r, w⟩ : Buffer).ensureWriteableBytes message.length = .ok ⟨zeros, r, w⟩ := by
    rw [ensureWriteableBytes, if_neg, if_neg]
    · simp only [resize, List.take_nil, List.nil_append, List.length_nil, Nat.sub_zero, hlen,
        hzeros]
    · simp only [writeablebytes, prependablebytes, kPrePendIndex, List.length_nil]
      omega
    · simp only [writeablebytes, List.length_nil]
      omega
  have hgrown :
      (⟨zeros, r, w⟩ : Buffer).ensureWriteableBytes message.length = .ok ⟨zeros, r, w⟩ := by
    rw [ensureWriteableBytes, if_pos]
    simp only [writeablebytes, hlength]
    omega
  have hvalid : Valid ⟨zeros, r, w⟩ := valid_nat (by omega) (by omega) (by omega)
  obtain ⟨b', hrun, hvalid', hreadable⟩ := hvalid.append message
  refine ⟨b', ?_, hvalid', ?_⟩
  · rw [Buffer.append, hgrown, ok_bind] at hrun
    rw [Buffer.moved, Buffer.append, hresize, ok_bind, hrun]
  · have hzero : ((w : ℤ) - r).toNat = w - r := by omega
    rw [hreadable, readable_nat, List.extract_eq_take_drop, hzeros, List.drop_replicate,
      List.take_replicate, readablebytes, hzero, min_eq_left (by omega)]

/-- Such an `Append` makes just the appended bytes readable if there were no readable bytes. -/
theorem Ordered.append_moved_iff (h : Ordered b) :
    (∀ message b', b.moved.append message = .ok b' → b'.readable = message) ↔
      b.readablebytes = 0 := by
  have hle := h.read_le_write
  constructor
  · intro happend
    obtain ⟨b', hrun, -, hreadable⟩ := h.append_moved []
    rw [happend [] b' hrun, List.append_nil] at hreadable
    have hlength := congrArg List.length hreadable
    rw [List.length_nil, List.length_replicate] at hlength
    rw [readablebytes] at *
    omega
  · intro hnone message b' hrun
    obtain ⟨b₁, hrun₁, -, hreadable⟩ := h.append_moved message
    obtain rfl := Except.ok.inj (hrun.symm.trans hrun₁)
    rw [hreadable, hnone, Int.toNat_zero, List.replicate_zero, List.nil_append]

end Buffer

/-! ## Runs -/

/-- A call on one of the buffers, or a move from one to another. -/
inductive BufferCall (ι : Type*)
  | call (i : ι) (op : BufferOp)
  | moveConstruct (target source : ι)
  | moveAssign (target source : ι)

variable {ι : Type*} [DecidableEq ι]

/-- **The runs of buffers** with the names `ι`. A new buffer takes the place of the one that had its
name; a buffer that is assigned to itself stays as it is. -/
def bufferObjects (ι : Type*) [DecidableEq ι] : LTS (ι → Buffer) (BufferCall ι) where
  init p := ∀ i, p i = Buffer.new
  step
    | p, .call i op, q => ∃ b out, op.run (p i) = .ok (b, out) ∧ q = Function.update p i b
    | p, .moveConstruct target source, q => target ≠ source ∧
      q = Function.update (Function.update p target (p source).moveConstruct.1) source
        (p source).moveConstruct.2
    | p, .moveAssign target source, q =>
      q = if target = source then p
        else Function.update (Function.update p target ((p target).moveAssign (p source)).1) source
          ((p target).moveAssign (p source)).2

/-- A move from one buffer to another. -/
def BufferCall.Moves (x : BufferCall ι) (target source : ι) : Prop :=
  target ≠ source ∧ (x = .moveConstruct target source ∨ x = .moveAssign target source)

/-- **A move keeps both buffers**: after any further calls the indices of both are in order, the
target has the bytes of the source, the source has none, and an `Append` to it makes just the
appended bytes readable. -/
structure MoveKeepsBoth (target source : ι) (p q : ι → Buffer) : Prop where
  inOrder : ∀ calls r, (bufferObjects ι).Steps q calls r →
    (∀ x ∈ calls, ∃ i op, x = .call i op ∧ (i = target ∨ i = source)) →
      (r target).InOrder ∧ (r source).InOrder
  bytes : (q target).readable = (p source).readable
  noBytes : (q source).readablebytes = 0
  append : ∀ message b, (q source).append message = .ok b → b.readable = message

variable {calls : List (BufferCall ι)} {x : BufferCall ι} {p q : ι → Buffer} {target source : ι}

/-- **Each buffer of a run** has its indices ordered. -/
theorem ordered_of_run (hr : (bufferObjects ι).Run calls p) (i : ι) : (p i).Ordered := by
  have hupdate : ∀ {p : ι → Buffer} {b : Buffer} {i : ι}, (∀ j, (p j).Ordered) → b.Ordered →
      ∀ j, (Function.update p i b j).Ordered := fun hp hb =>
    (Function.forall_update_iff _ fun _ (b : Buffer) => b.Ordered).mpr ⟨hb, fun j _ => hp j⟩
  refine hr.invariant (I := fun p => ∀ i, (p i).Ordered) ?_ ?_ i
  · intro p hp i
    rw [hp i]
    exact Buffer.ordered_new
  · intro p x q hp hstep
    cases x with
    | call i op =>
      obtain ⟨b, out, hrun, rfl⟩ := hstep
      exact hupdate hp ((hp i).of_run hrun)
    | moveConstruct target source =>
      obtain ⟨-, rfl⟩ := hstep
      exact hupdate (hupdate hp (hp source)) (hp source).moved
    | moveAssign target source =>
      obtain rfl := hstep
      split
      · -- a buffer that is assigned to itself
        exact hp
      · exact hupdate (hupdate hp (hp source)) (hp source).moved

/-- **A move**: the target is what the source was, and the vector of the source is empty. -/
theorem BufferCall.Moves.step_eq (h : x.Moves target source) (hs : (bufferObjects ι).step p x q) :
    q target = p source ∧ q source = (p source).moved := by
  obtain ⟨hne, hx⟩ := h
  have hq : q = Function.update (Function.update p target (p source)) source (p source).moved := by
    rcases hx with rfl | rfl
    · exact hs.2
    · exact Eq.trans hs (if_neg hne)
  rw [hq, Function.update_of_ne hne, Function.update_self, Function.update_self]
  exact ⟨rfl, rfl⟩

/-- **No move keeps both buffers**: the source is out of order behind it. -/
theorem not_moveKeepsBoth (hr : (bufferObjects ι).Run calls p) (hmove : x.Moves target source)
    (hs : (bufferObjects ι).step p x q) : ¬ MoveKeepsBoth target source p q := by
  intro h
  obtain ⟨-, hsource⟩ := h.inOrder [] q .nil (fun x hx => absurd hx List.not_mem_nil)
  rw [(hmove.step_eq hs).2] at hsource
  exact (ordered_of_run hr source).not_inOrder_moved hsource

/-- A new buffer is moved to another one. -/
theorem not_moveKeepsBoth_new : ∃ q, (bufferObjects Bool).step (fun _ => Buffer.new)
    (.moveConstruct true false) q ∧ ¬ MoveKeepsBoth true false (fun _ => Buffer.new) q := by
  have hne : true ≠ false := by decide
  exact ⟨_, ⟨hne, rfl⟩, not_moveKeepsBoth (.nil fun _ => rfl) ⟨hne, .inl rfl⟩ ⟨hne, rfl⟩⟩

/-- Two bytes are appended to a buffer, which is then moved to another one. -/
theorem not_moveKeepsBoth_append : ¬ ∀ (calls : List (BufferCall Bool)) (p q : Bool → Buffer)
    (x : BufferCall Bool) (target source : Bool), (bufferObjects Bool).Run calls p →
    x.Moves target source → (bufferObjects Bool).step p x q → MoveKeepsBoth target source p q := by
  intro h
  obtain ⟨b, hrun, hvalid, hread⟩ := Buffer.valid_new.append (ofString "ab")
  have hr : (bufferObjects Bool).Run ([] ++ [.call false (.append (ofString "ab"))])
      (Function.update (fun _ => Buffer.new) false b) :=
    .snoc (.nil fun _ => rfl) ⟨b, [], BufferOp.ok_nil hrun, rfl⟩
  have hmove : (BufferCall.moveAssign true false).Moves true false := ⟨by decide, .inr rfl⟩
  have hkeeps := h _ _ _ _ _ _ hr hmove rfl
  obtain ⟨-, hsource⟩ := hmove.step_eq (p := Function.update (fun _ => Buffer.new) false b) rfl
  have hnone := hkeeps.noBytes
  rw [hsource, Function.update_self] at hnone
  have hbytes : (b.readable.length : ℤ) = b.moved.readablebytes := hvalid.length_readable
  rw [hread, Buffer.readable_new, hnone] at hbytes
  exact absurd hbytes (by decide)

end CppServerStudio
