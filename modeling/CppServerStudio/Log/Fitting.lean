import CppServerStudio.Log.Accepted

/-!
# Messages that fit

`AsyncLogging::Append` takes a message to `current_` if there is room for it, and
`FixedBuffer::append` copies it if a byte is left over. The two differ for a message that fills the
buffer to its end: it is taken to `current_` and not copied.

## Main definitions

* `AsyncLogging.Stores`: all bytes of a message are stored
* `fillAfter`: how full `current_` is after a message

## Main results

* `AsyncLogging.Ready.stores_iff`: one message
* `storesAll_iff`: a sequence of messages
-/

namespace CppServerStudio

namespace FixedBuffer

variable {size : ℕ} {b : FixedBuffer size} {buf : Bytes}

theorem append_of_copies (h : b.Copies buf) : (b.append buf).data = b.data ++ buf := by
  rw [data_append, if_pos h]

theorem append_of_not_copies (h : ¬ b.Copies buf) : b.append buf = b := by
  rw [append, dif_neg h]

theorem len_append_of_copies (h : b.Copies buf) : (b.append buf).len = b.len + buf.length := by
  rw [len, append_of_copies h, List.length_append, len]

end FixedBuffer

namespace AsyncLogging

/-- How many bytes `current_` holds. -/
def fill (a : AsyncLogging) : ℕ := a.current.elim 0 FixedBuffer.len

/-- The buffer that `Append` writes to. -/
def target (a : AsyncLogging) (data : Bytes) : Option LargeBuffer :=
  a.current.map fun current =>
    if data.length ≤ current.avail then current else a.next.getD {}

/-- **A message is stored**: `current_` is then the buffer it was written to with all its bytes
behind the others, and the length of this buffer has grown by its length. -/
def Stores (a : AsyncLogging) (data : Bytes) : Prop :=
  ∃ a' m before after, a.append data = .ok (a', m) ∧ a.target data = some before ∧
    a'.current = some after ∧ after.data = before.data ++ data ∧
    after.len = before.len + data.length

/-- **Each message** of a sequence is stored. -/
def StoresAll : AsyncLogging → List Bytes → Prop
  | _, [] => True
  | a, data :: messages =>
    a.Stores data ∧ ∀ a' m, a.append data = .ok (a', m) → StoresAll a' messages

/-- How full `current_` is after a message, if it held `fill` bytes before. -/
def fillAfter (fill length : ℕ) : ℕ :=
  if fill + length < fixedLargeBufferSize then fill + length
  else if fill + length = fixedLargeBufferSize then fill else length

variable {a : AsyncLogging} {data : Bytes}

theorem append_of_room {current : LargeBuffer} (hcurrent : a.current = some current)
    (hroom : data.length ≤ current.avail) : a.append data =
      .ok ({ a with current := some (current.append data) },
        ⟨data, current.avail, current.Copies data⟩) := by
  rw [append, hcurrent]
  exact if_pos hroom

theorem append_of_no_room {current : LargeBuffer} (hcurrent : a.current = some current)
    (hroom : ¬ data.length ≤ current.avail) : a.append data =
      .ok (⟨some ((a.next.getD {}).append data), none, a.buffers ++ [some current]⟩,
        ⟨data, current.avail, (a.next.getD {}).Copies data⟩) := by
  rw [append, hcurrent]
  exact if_neg hroom

/-- A message is stored if the buffer that it is written to copies it, or if it has no bytes. -/
theorem stores_iff_copies {a' : AsyncLogging} {m : Appended} {before : LargeBuffer}
    (happend : a.append data = .ok (a', m)) (htarget : a.target data = some before)
    (hafter : a'.current = some (before.append data)) :
    a.Stores data ↔ data = [] ∨ before.Copies data := by
  constructor
  · rintro ⟨b, n, before', after, hb, hbefore, hb', hdata, -⟩
    rw [happend, Except.ok.injEq, Prod.mk.injEq] at hb
    obtain ⟨rfl, -⟩ := hb
    obtain rfl : before = before' := Option.some.inj (htarget.symm.trans hbefore)
    obtain rfl : before.append data = after := Option.some.inj (hafter.symm.trans hb')
    by_contra hno
    rw [not_or] at hno
    rw [FixedBuffer.append_of_not_copies hno.2] at hdata
    exact hno.1 (List.self_eq_append_right.mp hdata)
  · intro h
    refine ⟨a', m, before, before.append data, happend, htarget, hafter, ?_⟩
    by_cases hcopies : before.Copies data
    · exact ⟨FixedBuffer.append_of_copies hcopies, FixedBuffer.len_append_of_copies hcopies⟩
    · obtain rfl := h.resolve_right hcopies
      rw [FixedBuffer.append_of_not_copies hcopies]
      exact ⟨(List.append_nil _).symm, rfl⟩

/-- **One message** is stored unless it fills `current_` to its end. -/
theorem Ready.stores_iff (h : a.Ready) (hlength : data.length < fixedLargeBufferSize) :
    ∃ a' m, a.append data = .ok (a', m) ∧ a'.Ready ∧ a'.fill = fillAfter a.fill data.length ∧
      (a.Stores data ↔ data = [] ∨ a.fill + data.length ≠ fixedLargeBufferSize) := by
  obtain ⟨a', m, happend, hready, -⟩ := h.append data
  obtain ⟨current, hcurrent⟩ := Option.ne_none_iff_exists'.mp h.current
  have hfill : a.fill = current.len := by rw [fill, hcurrent]; rfl
  have hle : current.len ≤ fixedLargeBufferSize := current.le_size
  have havail : current.avail = fixedLargeBufferSize - current.len := rfl
  refine ⟨a', m, happend, hready, ?_⟩
  by_cases hroom : data.length ≤ current.avail
  · have hstep := append_of_room hcurrent hroom
    have htarget : a.target data = some current := by
      rw [target, hcurrent, Option.map_some, if_pos hroom]
    rw [stores_iff_copies hstep htarget rfl]
    obtain ⟨rfl, -⟩ := Prod.mk.inj (Except.ok.inj (happend.symm.trans hstep))
    change (current.append data).len = _ ∧ _
    rw [hfill]
    by_cases hcopies : current.Copies data
    · have hlt : data.length < current.avail := hcopies
      rw [FixedBuffer.len_append_of_copies hcopies, fillAfter, if_pos (by omega)]
      exact ⟨rfl, ⟨fun _ => .inr (by omega), fun _ => .inr hcopies⟩⟩
    · -- the message fills the buffer to its end
      have hfull : current.len + data.length = fixedLargeBufferSize := by
        have hlt : ¬ data.length < current.avail := hcopies
        omega
      rw [FixedBuffer.append_of_not_copies hcopies, fillAfter, if_neg (by omega), if_pos hfull]
      exact ⟨rfl, or_congr_right ⟨fun h => absurd h hcopies, fun h => absurd hfull h⟩⟩
  · -- the buffer that becomes `current_` is empty
    have hfresh : a.next.getD {} = {} := by
      cases hnext : a.next with
      | none => rfl
      | some next => exact h.next_empty next hnext
    have hstep := append_of_no_room hcurrent hroom
    have htarget : a.target data = some {} := by
      rw [target, hcurrent, Option.map_some, if_neg hroom, hfresh]
    rw [hfresh] at hstep
    have hcopies : ({} : LargeBuffer).Copies data := by
      rw [FixedBuffer.Copies, FixedBuffer.avail_empty]
      exact hlength
    rw [stores_iff_copies hstep htarget rfl]
    obtain ⟨rfl, -⟩ := Prod.mk.inj (Except.ok.inj (happend.symm.trans hstep))
    change (({} : LargeBuffer).append data).len = _ ∧ _
    rw [hfill, FixedBuffer.len_append_of_copies hcopies, fillAfter, if_neg (by omega),
      if_neg (by omega)]
    exact ⟨Nat.zero_add _, ⟨fun _ => .inr (by omega), fun _ => .inr hcopies⟩⟩

/-! ## Sequences of messages -/

/-- **All messages are stored** exactly if none of them fills `current_` to its end, where how full
it is depends on the lengths of the messages alone. -/
theorem storesAll_iff (h : a.Ready) {messages : List Bytes}
    (hlength : ∀ data ∈ messages, data.length < fixedLargeBufferSize) :
    a.StoresAll messages ↔ ∀ before data later, messages = before ++ data :: later → data = [] ∨
      (before.map List.length).foldl fillAfter a.fill + data.length ≠ fixedLargeBufferSize := by
  induction messages generalizing a with
  | nil => simp [StoresAll]
  | cons data messages ih =>
    obtain ⟨a', m, happend, hready, hfill, hstores⟩ :=
      h.stores_iff (hlength data List.mem_cons_self)
    -- the later messages meet the fill level behind the first one
    have hrest := ih hready fun d hd => hlength d (List.mem_cons_of_mem _ hd)
    rw [hfill] at hrest
    constructor
    · rintro ⟨hfirst, hlater⟩ before d later hsplit
      cases before with
      | nil =>
        obtain ⟨rfl, -⟩ := List.cons.inj hsplit
        exact hstores.mp hfirst
      | cons e before =>
        rw [List.cons_append, List.cons.injEq] at hsplit
        obtain ⟨rfl, hsplit⟩ := hsplit
        exact hrest.mp (hlater a' m happend) before d later hsplit
    · intro hall
      refine ⟨hstores.mpr (hall [] data messages rfl), fun b n hb => ?_⟩
      rw [happend, Except.ok.injEq, Prod.mk.injEq] at hb
      obtain ⟨rfl, -⟩ := hb
      exact hrest.mpr fun before d later hsplit =>
        hall (data :: before) d later (by rw [hsplit, List.cons_append])

/-- Two short messages are stored. -/
theorem storesAll_two : StoresAll {} [ofString "a", ofString "b"] := by
  have hlength : ∀ data ∈ [ofString "a", ofString "b"], data.length < fixedLargeBufferSize := by
    decide
  refine (storesAll_iff ready_init hlength).mpr fun before data later hsplit => .inr ?_
  rcases before with _ | ⟨x, _ | ⟨y, before⟩⟩
  · obtain ⟨rfl, -⟩ := List.cons.inj hsplit
    decide
  · obtain ⟨rfl, htail⟩ := List.cons.inj hsplit
    obtain ⟨rfl, -⟩ := List.cons.inj htail
    decide
  · simp at hsplit

/-- A message that fills the buffer to its end is dropped. -/
theorem not_storesAll : ¬ ∀ (a : AsyncLogging) (messages : List Bytes), a.Ready →
    (∀ data ∈ messages, data.length < fixedLargeBufferSize) → a.StoresAll messages := by
  intro h
  have hlong : (List.replicate 4095999 (ascii 'a')).length < fixedLargeBufferSize := by
    rw [List.length_replicate]
    decide
  have hshort : (ofString "b").length < fixedLargeBufferSize := by decide
  obtain ⟨-, hlater⟩ := h {} [List.replicate 4095999 (ascii 'a'), ofString "b"] ready_init
    (by simp only [List.mem_cons, List.not_mem_nil, or_false, forall_eq_or_imp, forall_eq]
        exact ⟨hlong, hshort⟩)
  -- one byte is left behind the first message
  obtain ⟨a', m, happend, hready, hfill, -⟩ := ready_init.stores_iff hlong
  have hfill' : a'.fill = 4095999 := by
    rw [hfill, List.length_replicate]
    decide
  obtain ⟨b, n, -, -, -, hstores⟩ := hready.stores_iff hshort
  rw [hfill'] at hstores
  rcases hstores.mp (hlater a' m happend).1 with hnil | hne
  · cases hnil
  · exact hne rfl

end AsyncLogging

end CppServerStudio
