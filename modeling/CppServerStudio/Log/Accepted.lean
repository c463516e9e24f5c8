import CppServerStudio.Log.AsyncLogging

/-!
# The log keeps the accepted bytes in order

The buffers go round between the threads that append and the backend. Whenever `mutex_` is free,
what was written and what the shared buffers hold is all that was copied, in order; and the backend
never runs out of buffers, because `next_` is null only when there is another full buffer to take
in its place.

## Main definitions

* `contents`, `AsyncLogging.contents`: the bytes of some buffers, and of all shared ones
* `AsyncLogging.Ready`, `ThreadFunc.Ready`: the shared and the local buffers when `mutex_` is free

## Main results

* `AsyncLogging.Ready.append`: what an `Append` does
* `ThreadFunc.Ready.turn`: what a turn of the backend does
* `loggingSystem_accepted`: the bytes along all interleavings
-/

namespace CppServerStudio

open Scanning

/-- The bytes of some buffers, in order. -/
def contents (buffers : List (Option LargeBuffer)) : Bytes :=
  buffers.flatMap fun x => x.elim [] FixedBuffer.data

theorem contents_append (xs ys : List (Option LargeBuffer)) :
    contents (xs ++ ys) = contents xs ++ contents ys := List.flatMap_append

/-- No pointer is null. -/
def NonNull (buffers : List (Option LargeBuffer)) : Prop := ∀ x ∈ buffers, x ≠ none

theorem writeAll_eq {buffers : List (Option LargeBuffer)} (h : NonNull buffers) :
    ThreadFunc.writeAll buffers = .ok (contents buffers) := by
  induction buffers with
  | nil => rfl
  | cons x buffers ih =>
    cases x with
    | none => exact absurd rfl (h none List.mem_cons_self)
    | some buffer =>
      rw [ThreadFunc.writeAll, ih fun x hx => h x (List.mem_cons_of_mem _ hx), ok_bind]
      rfl

/-- A buffer to take its place is found for a null pointer. -/
theorem refill_none {active : List (Option LargeBuffer)} (h : NonNull active) (hne : active ≠ []) :
    ThreadFunc.refill none active = .ok (some {}, active.dropLast) := by
  obtain ⟨x, hx⟩ : ∃ x, active.getLast? = some x := ⟨_, List.getLast?_eq_some_getLast hne⟩
  cases x with
  | none => exact absurd rfl (h none (List.mem_of_getLast? hx))
  | some buffer =>
    rw [ThreadFunc.refill, hx]
    rfl

namespace AsyncLogging

/-- All bytes that the shared buffers hold. -/
def contents (a : AsyncLogging) : Bytes := CppServerStudio.contents (a.buffers ++ [a.current])

/-- **The shared buffers** when `mutex_` is free: `next_` is empty, and null only when a full buffer
waits for the backend. -/
structure Ready (a : AsyncLogging) : Prop where
  current : a.current ≠ none
  buffers : NonNull a.buffers
  next : a.next = none → a.buffers ≠ []
  next_empty : ∀ b, a.next = some b → b = {}

theorem ready_init : Ready {} where
  current := nofun
  buffers := nofun
  next := nofun
  next_empty := by
    rintro b ⟨⟩
    rfl

/-- **One `Append`**: what was copied goes behind all other bytes. -/
theorem Ready.append {a : AsyncLogging} (h : a.Ready) (data : Bytes) :
    ∃ a' m, a.append data = .ok (a', m) ∧ a'.Ready ∧ m.data = data ∧
      a'.contents = a.contents ++ (if m.copied then data else []) ∧
      (data.length < fixedLargeBufferSize → (m.copied ↔ data.length ≠ m.room)) := by
  obtain ⟨current, hcurrent⟩ := Option.ne_none_iff_exists'.mp h.current
  rw [AsyncLogging.append, hcurrent]
  dsimp only
  split
  · rename_i hroom
    refine ⟨_, _, rfl, ⟨Option.some_ne_none _, h.buffers, h.next, h.next_empty⟩, rfl, ?_,
      fun _ => ?_⟩
    · simp [contents, CppServerStudio.contents, hcurrent, FixedBuffer.data_append]
    · exact decide_eq_true_iff.trans ⟨ne_of_lt, lt_of_le_of_ne hroom⟩
  · -- the full buffer is left to the backend
    rename_i hroom
    -- `next_` is empty, like a new buffer
    have hfresh : a.next.getD {} = {} := by
      cases hnext : a.next with
      | none => rfl
      | some next => exact h.next_empty next hnext
    rw [hfresh]
    refine ⟨_, _, rfl, ⟨Option.some_ne_none _, ?_, by simp, by simp⟩, rfl, ?_, fun hfits => ?_⟩
    · intro x hx
      rcases List.mem_append.mp hx with hx | hx
      · exact h.buffers x hx
      · rw [List.mem_singleton.mp hx]
        exact Option.some_ne_none _
    · simp [contents, CppServerStudio.contents, hcurrent, FixedBuffer.data_append]
    · refine decide_eq_true_iff.trans ⟨fun _ heq => hroom heq.le, fun _ => ?_⟩
      exact hfits.trans_eq FixedBuffer.avail_empty.symm

end AsyncLogging

/-- **The backend's own buffers** between two turns: two empty ones. -/
structure ThreadFunc.Ready (f : ThreadFunc) : Prop where
  newCurrent : f.newCurrent = some {}
  newNext : f.newNext = some {}
  activeBuffers : f.activeBuffers = []

theorem NonNull.take {buffers : List (Option LargeBuffer)} (h : NonNull buffers) (n : ℕ) :
    NonNull (buffers.take n) := fun x hx => h x (List.mem_of_mem_take hx)

/-- **One turn** writes all bytes of the shared buffers, and leaves them empty. -/
theorem ThreadFunc.Ready.turn {f : ThreadFunc} {a : AsyncLogging} (hf : f.Ready) (ha : a.Ready) :
    ∃ f' a', f.turn a = .ok (f', a', a.contents) ∧ f'.Ready ∧ f'.phase = .top ∧ a'.Ready ∧
      a'.contents = [] := by
  have hnonNull : NonNull (a.buffers ++ [a.current]) := by
    intro x hx
    rcases List.mem_append.mp hx with hx | hx
    · exact ha.buffers x hx
    · rw [List.mem_singleton.mp hx]
      exact ha.current
  have hwrite := writeAll_eq hnonNull
  -- at most two of the written buffers are kept
  have hkept : (if (a.buffers ++ [a.current]).length > 2 then (a.buffers ++ [a.current]).take 2
      else a.buffers ++ [a.current]) = (a.buffers ++ [a.current]).take 2 := by
    split
    · rfl
    · exact (List.take_of_length_le (by omega)).symm
  have hne : (a.buffers ++ [a.current]).take 2 ≠ [] := by simp
  have hrefill := refill_none (hnonNull.take 2) hne
  rw [ThreadFunc.turn, hf.newCurrent, hf.newNext, hf.activeBuffers]
  cases hnext : a.next with
  | some next =>
    obtain rfl := ha.next_empty next hnext
    simp only [Option.isNone_some, Bool.false_eq_true, if_false, hwrite, ok_bind, hkept, hrefill]
    exact ⟨_, _, rfl, ⟨rfl, rfl, rfl⟩, rfl, AsyncLogging.ready_init, rfl⟩
  | none =>
    -- there is a second buffer for `new_next`
    have hne' : ((a.buffers ++ [a.current]).take 2).dropLast ≠ [] := by
      -- `next_` was null, so the batch holds a full buffer besides the current one
      obtain ⟨x, buffers, hbuffers⟩ := List.exists_cons_of_ne_nil (ha.next hnext)
      rw [hbuffers]
      cases buffers <;> simp
    have hrefill' := refill_none (fun x hx => hnonNull.take 2 x (List.mem_of_mem_dropLast hx)) hne'
    simp only [Option.isNone_none, if_true, hwrite, ok_bind, hkept, hrefill, hrefill']
    exact ⟨_, _, rfl, ⟨rfl, rfl, rfl⟩, rfl, AsyncLogging.ready_init, rfl⟩

/-! ## Runs -/

/-- **The invariant** while `mutex_` is free. -/
structure LogState.Flowing (s : LogState) : Prop where
  logging : s.logging.Ready
  backend : s.backend.Ready
  bytes : s.written ++ s.logging.contents = copiedBytes s.appended
  /-- A message that fits an empty buffer was copied, unless `current_` had just room for it. -/
  copied : ∀ m ∈ s.appended, m.data.length < fixedLargeBufferSize →
    (m.copied ↔ m.data.length ≠ m.room)

theorem flowing_init : LogState.Flowing {} where
  logging := AsyncLogging.ready_init
  backend := ⟨rfl, rfl, rfl⟩
  bytes := rfl
  copied := nofun

namespace LogState

variable {s : LogState}

theorem Flowing.setPhase (h : s.Flowing) (phase : BackendPhase) : (s.setPhase phase).Flowing where
  logging := h.logging
  backend := ⟨h.backend.newCurrent, h.backend.newNext, h.backend.activeBuffers⟩
  bytes := h.bytes
  copied := h.copied

/-- **A turn of the backend** writes all that was copied so far. -/
theorem Flowing.turn (h : s.Flowing) :
    ∃ t, s.turn = .ok t ∧ t.Flowing ∧ t.backend.phase = .top ∧ t.written = copiedBytes s.appended ∧
      t.appended = s.appended ∧ t.promised = s.promised ∧ t.running = s.running ∧
      t.stop = s.stop := by
  obtain ⟨f', a', hturn, hf, hphase, ha, hempty⟩ := h.backend.turn h.logging
  rw [LogState.turn, hturn, ok_bind]
  refine ⟨_, rfl, ⟨ha, hf, ?_, h.copied⟩, hphase, h.bytes, rfl, rfl, rfl, rfl⟩
  dsimp only
  rw [hempty, List.append_nil, h.bytes]

/-- **One step** of any thread succeeds and keeps the invariant. -/
theorem Flowing.act (h : s.Flowing) (e : LogStep) : ∃ t, s.act e = .ok t ∧ t.Flowing := by
  cases e with
  -- no message moves
  | start | test | callStop | clearRunning | join =>
    exact ⟨_, rfl, h.logging, ⟨h.backend.newCurrent, h.backend.newNext, h.backend.activeBuffers⟩,
      h.bytes, h.copied⟩
  | append data =>
    obtain ⟨a', m, happend, ha, hdata, hcontents, hcopied⟩ := h.logging.append data
    rw [LogState.act, happend, ok_bind]
    subst hdata
    refine ⟨_, rfl, ha, h.backend, ?_, fun m' hm' => ?_⟩
    -- the bytes of the message are behind those appended before
    · rw [hcontents, ← List.append_assoc, h.bytes]
      simp [copiedBytes]
    · rcases List.mem_append.mp hm' with hm' | hm'
      · exact h.copied m' hm'
      · obtain rfl := List.mem_singleton.mp hm'
        exact hcopied
  | lock =>
    rw [LogState.act]
    split
    · exact ⟨_, rfl, h.setPhase .waiting⟩
    · obtain ⟨t, hturn, ht, -⟩ := h.turn
      exact ⟨t, hturn, ht⟩
  | timeout =>
    obtain ⟨t, hturn, ht, -⟩ := h.turn
    exact ⟨t, hturn, ht⟩

end LogState

theorem flowing_of_run {steps : List LogStep} {s : LogState} (hrun : loggingSystem.Run steps s) :
    s.Flowing := by
  apply hrun.invariant
  · rintro s rfl
    exact flowing_init
  · rintro s e t h ⟨-, hact⟩
    obtain ⟨t', hact', ht⟩ := h.act e
    obtain rfl := Except.ok.inj (hact'.symm.trans hact)
    exact ht

/-- **The accepted bytes stay in order**: along every interleaving, the bytes written, those of
`buffers_` and those of `current_` are all that was copied, in the order of the calls; `current_` is
not null; the local buffers at the top of the loop are two empty ones; and whatever step comes next,
no null pointer is used and no element taken from an empty vector. -/
theorem loggingSystem_accepted {steps : List LogStep} {s : LogState}
    (hrun : loggingSystem.Run steps s) :
    s.written ++ contents s.logging.buffers ++ contents [s.logging.current] =
      copiedBytes s.appended ∧
    s.logging.current ≠ none ∧
    s.backend.newCurrent = some {} ∧ s.backend.newNext = some {} ∧
    ∀ e, s.Enabled e → ∃ t, s.act e = .ok t := by
  have h := flowing_of_run hrun
  refine ⟨?_, h.logging.current, h.backend.newCurrent, h.backend.newNext, fun e _ => ?_⟩
  · rw [List.append_assoc, ← contents_append]
    exact h.bytes
  · obtain ⟨t, hact, -⟩ := h.act e
    exact ⟨t, hact⟩

/-- The backend writes one message, and another one is appended. -/
theorem loggingSystem_accepted_two : ∃ s,
    loggingSystem.Run [.start, .append (ofString "a"), .test, .lock, .timeout,
      .append (ofString "b")] s ∧
    s.written ++ contents s.logging.buffers ++ contents [s.logging.current] =
      copiedBytes s.appended := by
  have hinit : loggingSystem.Run [] {} := .nil rfl
  have hstart : loggingSystem.Run [.start] _ := hinit.snoc ⟨rfl, rfl⟩
  have happend : loggingSystem.Run [.start, .append (ofString "a")] _ :=
    hstart.snoc ⟨trivial, rfl⟩
  have htest : loggingSystem.Run [.start, .append (ofString "a"), .test] _ :=
    happend.snoc ⟨rfl, rfl⟩
  have hlock : loggingSystem.Run [.start, .append (ofString "a"), .test, .lock] _ :=
    htest.snoc ⟨rfl, rfl⟩
  have htimeout : loggingSystem.Run [.start, .append (ofString "a"), .test, .lock, .timeout] _ :=
    hlock.snoc ⟨rfl, rfl⟩
  have happend' : loggingSystem.Run [.start, .append (ofString "a"), .test, .lock, .timeout,
      .append (ofString "b")] _ := htimeout.snoc ⟨trivial, rfl⟩
  exact ⟨_, happend', (loggingSystem_accepted happend').1⟩

end CppServerStudio
