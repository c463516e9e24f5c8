import CppServerStudio.NetWork.TcpConnection

/-!
# Errors of `send`

`WriteNonBlocking` closes the connection on an error of `send`, and then goes on: the error value
`-1` is taken for a number of bytes, and `Retrieve(-1)` moves the read index back. The same error
may be met by `Send`, and by the read side, which closes the connection too.

## Main definitions

* `ConnectionCall`, `lifeSystem`: the calls on a connection over its life, with any answers
* `TcpConnection.ErrorKept`: an error of `send` leaves the buffer as it is, and closes once

## Main results

* `lifeSystem_closedOnce`: `on_close_` is called once at most
* `TcpConnection.not_errorKept`: no error leaves a buffer as it is that is not empty
-/

namespace CppServerStudio

open Scanning

/-- A call on a connection, with what the socket answers if it is asked. `HandleWrite` may be called
for an event, unless the callback was replaced, or directly; `HandleClose` is called where `read`
answers 0 or an error, and by the servers. -/
inductive ConnectionCall
  | send (msg : Bytes) (res : SocketResult)
  | writeEvent (res : SocketResult)
  | handleWrite (res : SocketResult)
  | handleClose
  deriving DecidableEq, Repr

def ConnectionCall.run (c : TcpConnection) : ConnectionCall → Except BufferFault TcpConnection
  | send msg res => do .ok (← c.send msg res).1
  | writeEvent res => do .ok (← c.handleWrite res).1
  | handleWrite res => do .ok (← c.writeNonBlocking res).1
  | handleClose => .ok c.handleClose

/-- **The life of a connection**: calls in any order, with any answers. -/
def lifeSystem (connfd : ℤ) : LTS TcpConnection ConnectionCall where
  init c := c = .established connfd
  step c x c' := x.run c = .ok c'

/-- **An error of `send` is kept out of the buffer**: its readable bytes stay, the connection is
closed, and `on_close_` is called once at most, whatever follows. -/
def TcpConnection.ErrorKept (connfd : ℤ) (c : TcpConnection) : Prop :=
  ∃ c' out, c.writeNonBlocking .failed = .ok (c', out) ∧
    c'.sendBuf.readablebytes = c.sendBuf.readablebytes ∧
    c'.sendBuf.readable = c.sendBuf.readable ∧ c'.state = .disconected ∧
    ∀ xs d, (lifeSystem connfd).Steps c' xs d → d.onCloseCalls ≤ 1

variable {connfd : ℤ} {c c' : TcpConnection} {out : Bytes} {res : SocketResult}
  {xs : List ConnectionCall}

/-! ## What a call does -/

namespace TcpConnection

/-- `Send` appends what was not accepted, unless it meets an error. -/
theorem send_cases {msg : Bytes} (h : c.send msg res = .ok (c', out)) :
    (∃ n, c.appendRest msg n = .ok c') ∨ c' = c.sendError := by
  unfold send at h
  split_ifs at h
  · cases res with
    | accepted n =>
      obtain ⟨d, hd, h⟩ := bind_eq_ok.mp h
      cases h
      exact .inl ⟨n, hd⟩
    | again =>
      obtain ⟨d, hd, h⟩ := bind_eq_ok.mp h
      cases h
      exact .inl ⟨0, hd⟩
    | failed =>
      cases h
      exact .inr rfl
  · obtain ⟨d, hd, h⟩ := bind_eq_ok.mp h
    cases h
    exact .inl ⟨0, hd⟩

/-- What is appended is all that changes with the channel. -/
theorem appendRest_cases {msg : Bytes} {n : ℕ} (h : c.appendRest msg n = .ok c') :
    c' = c ∨ ∃ sendBuf, c.sendBuf.append (msg.drop n) = .ok sendBuf ∧
      c' = { c with sendBuf := sendBuf, channel := c.channel.enableWrite.1,
                    interest := c.channel.enableWrite.2.events } := by
  unfold appendRest at h
  simp only at h
  split_ifs at h
  · obtain ⟨sendBuf, happend, h⟩ := bind_eq_ok.mp h
    cases h
    exact .inr ⟨sendBuf, happend, rfl⟩
  · cases h
    exact .inl rfl

/-- `WriteNonBlocking` retrieves what was accepted, and `-1` bytes behind an error. -/
theorem writeNonBlocking_cases (h : c.writeNonBlocking res = .ok (c', out)) :
    c' = c ∨
    (∃ (n : ℕ) (sendBuf : Buffer), c.sendBuf.retrieve n = .ok sendBuf ∧
      c' = { c with sendBuf := sendBuf }) ∨
    ∃ sendBuf, c.sendBuf.readablebytes ≠ 0 ∧ c.sendBuf.retrieve (-1) = .ok sendBuf ∧
      c' = { c.sendError with sendBuf := sendBuf } := by
  unfold writeNonBlocking at h
  split_ifs at h with hempty
  · cases h
    exact .inl rfl
  · cases res with
    | accepted n =>
      obtain ⟨sendBuf, hretrieve, h⟩ := bind_eq_ok.mp h
      cases h
      exact .inr (.inl ⟨n, sendBuf, hretrieve, rfl⟩)
    | again =>
      obtain ⟨sendBuf, hretrieve, h⟩ := bind_eq_ok.mp h
      cases h
      exact .inr (.inl ⟨0, sendBuf, hretrieve, rfl⟩)
    | failed =>
      obtain ⟨sendBuf, hretrieve, h⟩ := bind_eq_ok.mp h
      cases h
      exact .inr (.inr ⟨sendBuf, hempty, hretrieve, rfl⟩)

/-! ## `on_close_` -/

/-- `on_close_` has been called once if the connection is closed, and not before. -/
def ClosedOnce (c : TcpConnection) : Prop :=
  c.onCloseCalls = if c.state = .disconected then 1 else 0

theorem ClosedOnce.le (h : c.ClosedOnce) : c.onCloseCalls ≤ 1 := by
  rw [h]
  split_ifs <;> decide

theorem state_handleClose (c : TcpConnection) : c.handleClose.state = .disconected := by
  rw [handleClose]
  split_ifs with h
  · rfl
  · exact not_not.mp h

theorem ClosedOnce.handleClose (h : c.ClosedOnce) : c.handleClose.ClosedOnce := by
  rw [ClosedOnce, state_handleClose, if_pos rfl, TcpConnection.handleClose]
  rw [ClosedOnce] at h
  split_ifs with hopen
  · rw [if_neg hopen] at h
    exact congrArg (· + 1) h
  · rwa [if_pos (not_not.mp hopen)] at h

theorem ClosedOnce.sendError (h : c.ClosedOnce) : c.sendError.ClosedOnce := by
  apply ClosedOnce.handleClose
  exact h

theorem ClosedOnce.send (h : c.ClosedOnce) {msg : Bytes} (hrun : c.send msg res = .ok (c', out)) :
    c'.ClosedOnce := by
  rcases send_cases hrun with ⟨n, hrest⟩ | rfl
  · rcases appendRest_cases hrest with rfl | ⟨sendBuf, -, rfl⟩
    · exact h
    · exact h
  · exact h.sendError

theorem ClosedOnce.writeNonBlocking (h : c.ClosedOnce)
    (hrun : c.writeNonBlocking res = .ok (c', out)) : c'.ClosedOnce := by
  rcases writeNonBlocking_cases hrun with rfl | ⟨n, sendBuf, -, rfl⟩ | ⟨sendBuf, -, -, rfl⟩
  · exact h
  · exact h
  · exact h.sendError

end TcpConnection

open TcpConnection

/-- A call keeps it. -/
theorem ConnectionCall.run_closedOnce (h : c.ClosedOnce) {x : ConnectionCall}
    (hrun : x.run c = .ok c') : c'.ClosedOnce := by
  cases x with
  | send msg res =>
    obtain ⟨⟨d, out⟩, hd, hrun⟩ := bind_eq_ok.mp hrun
    cases hrun
    exact h.send hd
  | writeEvent res =>
    obtain ⟨⟨d, out⟩, hd, hrun⟩ := bind_eq_ok.mp hrun
    cases hrun
    rw [TcpConnection.handleWrite] at hd
    split_ifs at hd
    · exact h.writeNonBlocking hd
    · cases hd
      exact h
  | handleWrite res =>
    obtain ⟨⟨d, out⟩, hd, hrun⟩ := bind_eq_ok.mp hrun
    cases hrun
    exact h.writeNonBlocking hd
  | handleClose =>
    cases hrun
    exact h.handleClose

theorem lifeSystem_steps_closedOnce (h : c.ClosedOnce)
    (hsteps : (lifeSystem connfd).Steps c xs c') : c'.ClosedOnce :=
  hsteps.history (I := fun _ c => c.ClosedOnce) h fun _ _ _ _ h hs =>
    ConnectionCall.run_closedOnce h hs

/-- **`on_close_` is called once at most** over the life of a connection. -/
theorem lifeSystem_closedOnce (h : (lifeSystem connfd).Run xs c) :
    c.ClosedOnce := by
  refine h.invariant (I := ClosedOnce) ?_ fun _ _ _ h hs => ConnectionCall.run_closedOnce h hs
  rintro _ rfl
  rfl

/-! ## The buffer -/

/-- **`Retrieve(-1)`** moves the read index back. -/
theorem Buffer.retrieve_neg_one {b : Buffer} (h : 0 < b.readablebytes) :
    b.retrieve (-1) = .ok { b with readIndex := b.readIndex - 1 } := by
  rw [readablebytes] at h
  rw [retrieve, readablebytes, if_neg (by omega), if_pos (by omega)]
  rfl

/-- An error of `send` closes the connection, and the buffer is longer by one byte. -/
theorem TcpConnection.writeNonBlocking_failed (h : 0 < c.sendBuf.readablebytes) :
    c.writeNonBlocking .failed = .ok ({ c.sendError with
      sendBuf := { c.sendBuf with readIndex := c.sendBuf.readIndex - 1 } }, []) := by
  unfold writeNonBlocking
  rw [if_neg (by omega)]
  simp only [Buffer.retrieve_neg_one h, ok_bind]

/-- **No error of `send` is kept out** of a buffer that is not empty: the connection is closed, and
`on_close_` is called once at most, but the buffer has one byte more, in front. -/
theorem TcpConnection.not_errorKept (h : (lifeSystem connfd).Run xs c)
    (hne : 0 < c.sendBuf.readablebytes) : ¬ c.ErrorKept connfd ∧
    ∃ c', c.writeNonBlocking .failed = .ok (c', []) ∧
      c'.sendBuf = { c.sendBuf with readIndex := c.sendBuf.readIndex - 1 } ∧
      c'.state = .disconected ∧
      ∀ ys d, (lifeSystem connfd).Steps c' ys d → d.onCloseCalls ≤ 1 := by
  have hfail := writeNonBlocking_failed hne
  constructor
  · rintro ⟨c', out, hrun, hlen, -⟩
    rw [hfail, Except.ok.injEq, Prod.mk.injEq] at hrun
    obtain ⟨rfl, -⟩ := hrun
    simp only [Buffer.readablebytes] at hlen
    omega
  · refine ⟨_, hfail, rfl, state_handleClose _, fun ys d hsteps => ?_⟩
    have hclosed := (lifeSystem_closedOnce h).sendError
    exact (lifeSystem_steps_closedOnce (by exact hclosed) hsteps).le

/-- A byte that the socket does not take waits in the buffer. -/
theorem lifeSystem_waiting : ∃ c, (lifeSystem 5).Run [.send (ofString "a") .again] c ∧
    0 < c.sendBuf.readablebytes := by
  obtain ⟨c, hrest, hsending⟩ :=
    @Sending.appendRest _ _ (sending_established 5) (ofString "a") 0 (Nat.zero_le _)
  rw [List.drop_zero, List.nil_append] at hsending
  have hsend : (TcpConnection.established 5).send (ofString "a") .again = .ok (c, []) := by
    unfold TcpConnection.send
    rw [if_pos ((sending_established 5).readablebytes_eq_zero.mpr rfl)]
    simp only [hrest, ok_bind]
  refine ⟨c, .snoc (.nil rfl) ?_, ?_⟩
  · show ConnectionCall.run (.established 5) _ = .ok c
    rw [ConnectionCall.run, hsend, ok_bind]
  · have hlen := hsending.valid.length_readable
    rw [hsending.readable] at hlen
    rw [← hlen]
    decide

/-- The one byte that waits gets company. -/
theorem TcpConnection.not_errorKept_one : ∃ c, (lifeSystem 5).Run [.send (ofString "a") .again] c ∧
    ¬ c.ErrorKept 5 := by
  obtain ⟨c, hrun, hne⟩ := lifeSystem_waiting
  exact ⟨c, hrun, (not_errorKept hrun hne).1⟩

/-- Not every error is kept out of the buffer. -/
theorem not_forall_errorKept : ¬ ∀ (connfd : ℤ) (xs : List ConnectionCall) (c : TcpConnection),
    (lifeSystem connfd).Run xs c → 0 < c.sendBuf.readablebytes → c.ErrorKept connfd := by
  intro h
  obtain ⟨c, hrun, hne⟩ := lifeSystem_waiting
  obtain ⟨c', out, hfail, hlen, -⟩ := h 5 _ c hrun hne
  rw [TcpConnection.writeNonBlocking_failed hne, Except.ok.injEq, Prod.mk.injEq] at hfail
  obtain ⟨rfl, -⟩ := hfail
  simp only [Buffer.readablebytes] at hlen
  omega

end CppServerStudio
