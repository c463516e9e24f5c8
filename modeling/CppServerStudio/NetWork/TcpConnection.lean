import CppServerStudio.NetWork.ByteQueue
import CppServerStudio.NetWork.Channel

/-!
# Sending on a connection

`TcpConnection::Send` writes to the socket directly when nothing is waiting in `send_buf_`, and
appends what the socket did not take. `WriteNonBlocking` sends from the buffer when the socket is
writable again. What the socket answers is an argument of each call.

`send` takes a message with its length as it is. `sendString` is the overload for a `std::string`,
which casts the length to an `int`, and ends in a fault where a sum of `Append` overflows.

## Main definitions

* `SocketResult`: what `write` and `send` answer
* `TcpConnection.send`, `TcpConnection.writeNonBlocking`: the two write paths
* `TcpConnection.sendString`: the first of them with the `int` that the length is cast to
* `SendEvent.Fits`: a message whose length and whose sums fit an `int`
* `sendSystem`: a connection and the bytes its socket has accepted, under sends and events

## Main results

* `Sending.send`, `Sending.handleWrite`: one call moves bytes from the messages to the socket
* `TcpConnection.sendString_eq_send`: the casts do not show on a message that fits
* `sendSystem_lossless`: nothing is lost, duplicated or reordered along a run of such messages
-/

namespace CppServerStudio

open Scanning

inductive ConnectionState
  | invalid | connected | disconected
  deriving DecidableEq, Repr

/-- The answer of `write` or `send`: the number of bytes accepted, `EAGAIN` or `EWOULDBLOCK`, or
another error. -/
inductive SocketResult
  | accepted (n : ℕ)
  | again
  | failed
  deriving DecidableEq, Repr

/-- A connection, with the event mask registered for its channel and the number of times it has
called `on_close_`. -/
structure TcpConnection where
  state : ConnectionState
  channel : Channel
  interest : BitVec 32
  sendBuf : Buffer
  onCloseCalls : ℕ := 0
  deriving DecidableEq

namespace TcpConnection

/-- A connection after its constructor and `ConnectionEstablished`. -/
def established (connfd : ℤ) : TcpConnection :=
  let channel := (Channel.enableET { fd := connfd }).1
  let (channel, ctl) := Channel.enableRead { channel with writeCallback := true }
  { state := .connected, channel := channel, interest := ctl.events, sendBuf := Buffer.new }

def handleClose (c : TcpConnection) : TcpConnection :=
  if c.state ≠ .disconected then
    { c with state := .disconected, onCloseCalls := c.onCloseCalls + 1 }
  else c

/-- `channel_->set_write_callback([]() {})`, then `HandleClose`. -/
def sendError (c : TcpConnection) : TcpConnection :=
  handleClose { c with channel := { c.channel with writeCallback := false } }

/-- The end of `Send`, once the socket has accepted `sendSize` bytes of the message. -/
def appendRest (c : TcpConnection) (msg : Bytes) (sendSize : ℕ) :
    Except BufferFault TcpConnection :=
  let remaining : ℤ := msg.length - sendSize
  if ¬ remaining ≤ msg.length then .error .assertFailed
  else if remaining > 0 then do
    let sendBuf ← c.sendBuf.append (msg.drop sendSize)
    let (channel, ctl) := c.channel.enableWrite
    .ok { c with sendBuf := sendBuf, channel := channel, interest := ctl.events }
  else .ok c

/-- **`Send`**: the connection after it, and the bytes the socket has accepted. -/
def send (c : TcpConnection) (msg : Bytes) (res : SocketResult) :
    Except BufferFault (TcpConnection × Bytes) :=
  if c.sendBuf.readablebytes = 0 then
    match res with
    | .accepted n => do .ok (← c.appendRest msg n, msg.take n)
    | .again => do .ok (← c.appendRest msg 0, [])
    | .failed => .ok (c.sendError, [])
  else do .ok (← c.appendRest msg 0, [])

/-- **`WriteNonBlocking`**: the connection after it, and the bytes the socket has accepted. After
an error the buffer retrieves `-1` bytes. -/
def writeNonBlocking (c : TcpConnection) (res : SocketResult) :
    Except BufferFault (TcpConnection × Bytes) :=
  if c.sendBuf.readablebytes = 0 then .ok (c, [])
  else match res with
    | .accepted n => do
      let sendBuf ← c.sendBuf.retrieve n
      .ok ({ c with sendBuf := sendBuf }, c.sendBuf.readable.take n)
    | .again => do
      let sendBuf ← c.sendBuf.retrieve 0
      .ok ({ c with sendBuf := sendBuf }, [])
    | .failed => do
      let sendBuf ← c.sendBuf.retrieve (-1)
      .ok ({ c.sendError with sendBuf := sendBuf }, [])

/-- An `EPOLLOUT` event: the channel calls `HandleWrite`, unless its callback was replaced. -/
def handleWrite (c : TcpConnection) (res : SocketResult) :
    Except BufferFault (TcpConnection × Bytes) :=
  if c.channel.writeCallback then c.writeNonBlocking res else .ok (c, [])

end TcpConnection

/-! ## What one call moves -/

/-- A socket that accepts at most what it is offered, or answers `EAGAIN`. -/
def SocketResult.Within (offered : ℕ) : SocketResult → Prop
  | .accepted n => n ≤ offered
  | .again => True
  | .failed => False

/-- A connection that has `pending` left to send. While there is anything left, it listens for
`EPOLLOUT` and has registered it. -/
structure Sending (c : TcpConnection) (pending : Bytes) : Prop where
  valid : c.sendBuf.Valid
  readable : c.sendBuf.readable = pending
  writing : pending ≠ [] → c.channel.writing ∧ c.interest &&& EPOLLOUT = EPOLLOUT
  callback : c.channel.writeCallback = true

theorem updateChannel_writeCallback (ch : Channel) :
    (Epoller.updateChannel ch).1.writeCallback = ch.writeCallback := by
  rw [Epoller.updateChannel]
  split_ifs <;> rfl

theorem sending_established (connfd : ℤ) : Sending (.established connfd) [] := by
  exact ⟨Buffer.valid_new, Buffer.readable_new, by simp, rfl⟩

variable {c : TcpConnection} {pending : Bytes}

theorem Sending.readablebytes_eq_zero (h : Sending c pending) :
    c.sendBuf.readablebytes = 0 ↔ pending = [] := by
  have hlen := h.valid.length_readable
  rw [h.readable] at hlen
  rw [← hlen]
  simp

/-- What the socket did not take of a message goes behind what is left to send. -/
theorem Sending.appendRest (h : Sending c pending) {msg : Bytes} {n : ℕ} (hn : n ≤ msg.length) :
    ∃ c', c.appendRest msg n = .ok c' ∧ Sending c' (pending ++ msg.drop n) := by
  rw [TcpConnection.appendRest]
  simp only
  rw [if_neg (by omega)]
  split_ifs with hrest
  · obtain ⟨sendBuf, happend, hvalid, hread⟩ := h.valid.append (msg.drop n)
    refine ⟨_, by rw [happend, ok_bind], hvalid, by rw [hread, h.readable], fun _ => ?_, ?_⟩
    · exact ⟨c.channel.enableWrite_writing, c.channel.enableWrite_events⟩
    · exact (updateChannel_writeCallback _).trans h.callback
  · refine ⟨c, rfl, ?_⟩
    rwa [List.drop_of_length_le (by omega), List.append_nil]

/-- **One `Send`**: the bytes the socket accepts, followed by what is left to send, are what was
left to send before and the message. -/
theorem Sending.send (h : Sending c pending) {msg : Bytes} {res : SocketResult}
    (hres : res.Within msg.length) :
    ∃ c' out pending', c.send msg res = .ok (c', out) ∧ Sending c' pending' ∧
      out ++ pending' = pending ++ msg := by
  obtain ⟨c₀, hrest₀, hsend₀⟩ := h.appendRest (Nat.zero_le msg.length)
  rw [List.drop_zero] at hsend₀
  unfold TcpConnection.send
  split_ifs with hempty
  · rw [h.readablebytes_eq_zero] at hempty
    subst hempty
    cases res with
    | accepted n =>
      obtain ⟨c', hrest, hsend⟩ := h.appendRest hres
      exact ⟨c', msg.take n, _, by simp only [hrest, ok_bind], hsend, by simp⟩
    | again => exact ⟨c₀, [], _, by simp only [hrest₀, ok_bind], hsend₀, rfl⟩
    | failed => exact hres.elim
  · -- the message must not overtake what is left to send
    exact ⟨c₀, [], _, by simp only [hrest₀, ok_bind], hsend₀, rfl⟩

/-- **One `EPOLLOUT` event**: the bytes the socket accepts, followed by what is left to send, are
what was left to send before. -/
theorem Sending.handleWrite (h : Sending c pending) {res : SocketResult}
    (hres : res.Within pending.length) :
    ∃ c' out pending', c.handleWrite res = .ok (c', out) ∧ Sending c' pending' ∧
      out ++ pending' = pending := by
  have hlen := h.valid.length_readable
  rw [h.readable] at hlen
  rw [TcpConnection.handleWrite, if_pos h.callback]
  unfold TcpConnection.writeNonBlocking
  split_ifs with hempty
  · exact ⟨c, [], pending, rfl, h, rfl⟩
  -- there is something to send, so the channel waits for `EPOLLOUT`
  have hwriting := h.writing (mt h.readablebytes_eq_zero.mpr hempty)
  cases res with
  | accepted n =>
    simp only [SocketResult.Within] at hres
    -- what the socket accepts is taken from the front of the buffer
    obtain ⟨sendBuf, hretrieve, hvalid, hread⟩ := h.valid.retrieve (n := n) (by omega)
    rw [h.readable] at hread
    exact ⟨{ c with sendBuf := sendBuf }, pending.take n, pending.drop n,
      by simp only [hretrieve, ok_bind, h.readable],
      ⟨hvalid, hread, fun _ => hwriting, h.callback⟩, List.take_append_drop n pending⟩
  | again =>
    obtain ⟨sendBuf, hretrieve, hvalid, hread⟩ := h.valid.retrieve (n := 0) (by omega)
    rw [h.readable, List.drop_zero] at hread
    rw [Nat.cast_zero] at hretrieve
    exact ⟨{ c with sendBuf := sendBuf }, [], pending, by simp only [hretrieve, ok_bind],
      ⟨hvalid, hread, fun _ => hwriting, h.callback⟩, rfl⟩
  | failed => exact hres.elim

/-! ## The sizes of messages -/

/-- How `Send` can fail: in its buffer, or by a sum that is no `int`. -/
inductive SendFault
  | buffer (e : BufferFault)
  | intOverflow
  deriving DecidableEq, Repr

namespace TcpConnection

/-- The end of `Send(const char*, int)`, once the socket has accepted `sendSize` bytes of the
message. -/
def appendRestSized (c : TcpConnection) (msg : Bytes) (len : ℤ) (sendSize : ℕ) :
    Except SendFault TcpConnection :=
  let remaining := len - sendSize
  if ¬ remaining ≤ len then .error (.buffer .assertFailed)
  else if remaining > 0 then
    if c.sendBuf.FitsInt remaining then do
      let sendBuf ← (c.sendBuf.append ((msg.drop sendSize).take remaining.toNat)).mapError .buffer
      let (channel, ctl) := c.channel.enableWrite
      .ok { c with sendBuf := sendBuf, channel := channel, interest := ctl.events }
    else .error .intOverflow
  else .ok c

/-- **`Send(const char*, int)`**. -/
def sendSized (c : TcpConnection) (msg : Bytes) (len : ℤ) (res : SocketResult) :
    Except SendFault (TcpConnection × Bytes) :=
  if c.sendBuf.readablebytes = 0 then
    match res with
    | .accepted n => do .ok (← c.appendRestSized msg len n, msg.take n)
    | .again => do .ok (← c.appendRestSized msg len 0, [])
    | .failed => .ok (c.sendError, [])
  else do .ok (← c.appendRestSized msg len 0, [])

/-- **`Send(const std::string&)`**, which casts the size to an `int`. -/
def sendString (c : TcpConnection) (msg : Bytes) (res : SocketResult) :
    Except SendFault (TcpConnection × Bytes) :=
  c.sendSized msg (intOfSize msg.length) res

/-- How many bytes of a message the socket accepts at once. -/
def sendSize (c : TcpConnection) : SocketResult → ℕ
  | .accepted n => if c.sendBuf.readablebytes = 0 then n else 0
  | .again | .failed => 0

/-- **A message fits**: its length is that of an `int`, and so is each sum that is computed to
append what the socket does not accept. -/
def Fits (c : TcpConnection) (msg : Bytes) (res : SocketResult) : Prop :=
  msg.length < 2 ^ 31 ∧ c.sendBuf.FitsInt (msg.length - c.sendSize res)

theorem appendRestSized_eq_appendRest (c : TcpConnection) {msg : Bytes} {n : ℕ}
    (hfits : c.sendBuf.FitsInt (msg.length - n)) :
    c.appendRestSized msg msg.length n = (c.appendRest msg n).mapError .buffer := by
  have hassert : ¬ ¬ (msg.length : ℤ) - n ≤ msg.length := by omega
  unfold appendRestSized appendRest
  dsimp only
  rw [if_neg hassert, if_neg hassert, if_pos hfits]
  by_cases hrest : (msg.length : ℤ) - n > 0
  · have hall : (msg.drop n).take ((msg.length : ℤ) - n).toNat = msg.drop n :=
      List.take_of_length_le (by rw [List.length_drop]; omega)
    rw [if_pos hrest, if_pos hrest, hall]
    cases c.sendBuf.append (msg.drop n) <;> rfl
  · rw [if_neg hrest, if_neg hrest]
    rfl

/-- **The casts do not show** on a message that fits. -/
theorem sendString_eq_send {c : TcpConnection} {msg : Bytes} {res : SocketResult}
    (hfits : c.Fits msg res) : c.sendString msg res = (c.send msg res).mapError .buffer := by
  obtain ⟨hlen, hfits⟩ := hfits
  have hbind : ∀ (x : Except BufferFault TcpConnection) (out : Bytes),
      (do .ok (← x.mapError .buffer, out) : Except SendFault (TcpConnection × Bytes)) =
        (do .ok (← x, out) : Except BufferFault (TcpConnection × Bytes)).mapError .buffer := by
    intro x out
    cases x <;> rfl
  unfold sendString sendSized send
  rw [intOfSize_of_lt hlen]
  split_ifs with hempty
  · cases res with
    | accepted n =>
      rw [sendSize, if_pos hempty] at hfits
      simp only [appendRestSized_eq_appendRest c hfits, hbind]
    | again =>
      rw [sendSize] at hfits
      simp only [appendRestSized_eq_appendRest c hfits, hbind]
    | failed => rfl
  · have hzero : c.sendSize res = 0 := by
      cases res <;> simp [sendSize, hempty]
    rw [hzero] at hfits
    simp only [appendRestSized_eq_appendRest c hfits, hbind]

end TcpConnection

/-! ## Runs -/

/-- A call of `Send`, or an `EPOLLOUT` event, with what the socket answers if it is asked. -/
inductive SendEvent
  | send (msg : Bytes) (res : SocketResult)
  | handleWrite (res : SocketResult)

namespace SendEvent

def run (c : TcpConnection) : SendEvent → Except SendFault (TcpConnection × Bytes)
  | send msg res => c.sendString msg res
  | handleWrite res => (c.handleWrite res).mapError .buffer

/-- The socket accepts part of what it is offered, or answers `EAGAIN`. -/
def Within (c : TcpConnection) : SendEvent → Prop
  | send msg res => res.Within (intOfSize msg.length).toNat
  | handleWrite res => res.Within c.sendBuf.readable.length

/-- The message that is sent fits. -/
def Fits (c : TcpConnection) : SendEvent → Prop
  | send msg res => c.Fits msg res
  | handleWrite _ => True

/-- The message passed to `Send`. -/
def message : SendEvent → Bytes
  | send msg _ => msg
  | handleWrite _ => []

end SendEvent

/-- **A connection and its socket**: the second component is what the socket has accepted. -/
def sendSystem (connfd : ℤ) : LTS (TcpConnection × Bytes) SendEvent where
  init s := s = (.established connfd, [])
  step s e t := e.Within s.1 ∧ ∃ out, e.run s.1 = .ok (t.1, out) ∧ t.2 = s.2 ++ out

/-- The runs in which each message fits. -/
def fittingSystem (connfd : ℤ) : LTS (TcpConnection × Bytes) SendEvent :=
  (sendSystem connfd).restrict fun s e => e.Fits s.1

theorem SendEvent.run_sending (h : Sending c pending) {e : SendEvent} (hfits : e.Fits c)
    (he : e.Within c) :
    ∃ c' out pending', e.run c = .ok (c', out) ∧ Sending c' pending' ∧
      out ++ pending' = pending ++ e.message := by
  cases e with
  | send msg res =>
    have hfits : c.Fits msg res := hfits
    rw [SendEvent.Within, intOfSize_of_lt hfits.1, Int.toNat_natCast] at he
    obtain ⟨c', out, pending', hsend, hsending, hsum⟩ := h.send he
    refine ⟨c', out, pending', ?_, hsending, hsum⟩
    rw [SendEvent.run, TcpConnection.sendString_eq_send hfits, hsend]
    rfl
  | handleWrite res =>
    rw [SendEvent.Within, h.readable] at he
    obtain ⟨c', out, pending', hwrite, hsending, hsum⟩ := h.handleWrite he
    refine ⟨c', out, pending', ?_, hsending, by rw [hsum, SendEvent.message, List.append_nil]⟩
    rw [SendEvent.run, hwrite]
    rfl

/-- What the socket has accepted, followed by what is left to send, is the concatenation of the
messages. -/
theorem sendSystem_invariant {connfd : ℤ} {es : List SendEvent} {s : TcpConnection × Bytes}
    (h : (fittingSystem connfd).Run es s) :
    ∃ pending, Sending s.1 pending ∧ s.2 ++ pending = es.flatMap SendEvent.message := by
  refine h.history (I := fun es s => ∃ pending, Sending s.1 pending ∧
    s.2 ++ pending = es.flatMap SendEvent.message) ?_ ?_
  · rintro s rfl
    exact ⟨[], sending_established connfd, rfl⟩
  · rintro es ⟨c, wire⟩ e ⟨c', wire'⟩ ⟨pending, hsend, hsum⟩ ⟨hfits, he, out, hrun, hwire⟩
    simp only at hsend hsum hfits he hrun hwire
    obtain ⟨c₁, out₁, pending', hrun₁, hsend', hmove⟩ := e.run_sending hsend hfits he
    rw [hrun, Except.ok.injEq, Prod.mk.injEq] at hrun₁
    obtain ⟨rfl, rfl⟩ := hrun₁
    refine ⟨pending', hsend', ?_⟩
    calc wire' ++ pending' = wire ++ (out ++ pending') := by rw [hwire, List.append_assoc]
      _ = wire ++ pending ++ e.message := by rw [hmove, List.append_assoc]
      _ = (es ++ [e]).flatMap SendEvent.message := by simp [hsum]

/-- **Lossless, ordered sending**: at every point of a run of sends of messages that fit, and of
`EPOLLOUT` events, the bytes that the socket has accepted followed by the readable bytes of
`send_buf_` are the messages in the order of their sends, and while there are such bytes the channel
listens for `EPOLLOUT` and has registered it. No call fails: every such event goes on with the
run. -/
theorem sendSystem_lossless {connfd : ℤ} {es : List SendEvent} {c : TcpConnection} {wire : Bytes}
    (h : (fittingSystem connfd).Run es (c, wire)) :
    wire ++ c.sendBuf.readable = es.flatMap SendEvent.message ∧
    (c.sendBuf.readable ≠ [] → c.channel.writing ∧ c.interest &&& EPOLLOUT = EPOLLOUT) ∧
    ∀ e : SendEvent, e.Fits c → e.Within c →
      ∃ c' out, e.run c = .ok (c', out) ∧
        (fittingSystem connfd).Run (es ++ [e]) (c', wire ++ out) := by
  obtain ⟨pending, hsend, hsum⟩ := sendSystem_invariant h
  simp only at hsend hsum
  obtain rfl := hsend.readable
  refine ⟨hsum, hsend.writing, fun e hfits he => ?_⟩
  obtain ⟨c', out, -, hrun, -, -⟩ := e.run_sending hsend hfits he
  exact ⟨c', out, hrun, h.snoc ⟨hfits, he, out, hrun, rfl⟩⟩

/-- A short message fits behind a short vector. -/
theorem Sending.fits (h : Sending c pending) {msg : Bytes} {res : SocketResult}
    (hroom : (c.sendBuf.buffer.length : ℤ) + msg.length < 2 ^ 31) : c.Fits msg res := by
  have hwrite := h.valid.write_le_size
  have hsize := h.valid.prepend_le_size
  refine ⟨by omega, .inr ⟨by omega, .inr (by omega)⟩⟩

theorem TcpConnection.length_of_appendRest {c' : TcpConnection} {msg : Bytes} {n : ℕ}
    (h : c.appendRest msg n = .ok c') :
    (c'.sendBuf.buffer.length : ℤ) = c.sendBuf.buffer.length ∨
      (c'.sendBuf.buffer.length : ℤ) = c.sendBuf.writeIndex + (msg.drop n).length := by
  unfold appendRest at h
  simp only at h
  split_ifs at h
  · obtain ⟨sendBuf, happend, hd⟩ := bind_eq_ok.mp h
    obtain rfl := Except.ok.inj hd
    exact Buffer.length_of_append happend
  · obtain rfl := Except.ok.inj h
    exact .inl rfl

/-- The socket takes one byte of a first message and refuses a second one. -/
theorem sendSystem_lossless_two :
    ∃ c wire, (fittingSystem 5).Run
      [.send (ofString "ab") (.accepted 1), .send (ofString "cd") .again] (c, wire) ∧
      wire ++ c.sendBuf.readable = ofString "abcd" := by
  have hnew : ((TcpConnection.established 5).sendBuf.buffer.length : ℤ) = 1024 :=
    congrArg Nat.cast (List.length_replicate : Buffer.new.buffer.length = kInitalSize)
  have hempty : (TcpConnection.established 5).sendBuf.readablebytes = 0 := by
    rw [(sending_established 5).readablebytes_eq_zero]
  have hab : (TcpConnection.established 5).Fits (ofString "ab") (.accepted 1) :=
    (sending_established 5).fits (by rw [hnew]; decide)
  have hwithin : SendEvent.Within (.established 5) (.send (ofString "ab") (.accepted 1)) := by
    rw [SendEvent.Within, intOfSize_of_lt (by decide)]
    exact (by decide : 1 ≤ 2)
  -- the second byte is left to send, in a vector that is still short
  obtain ⟨c₁, hrest, hsending⟩ :=
    (sending_established 5).appendRest (by decide : 1 ≤ (ofString "ab").length)
  have hrun : SendEvent.run (.established 5) (.send (ofString "ab") (.accepted 1)) =
      .ok (c₁, (ofString "ab").take 1) := by
    rw [SendEvent.run, TcpConnection.sendString_eq_send hab]
    unfold TcpConnection.send
    rw [if_pos hempty]
    simp only [hrest, ok_bind]
    rfl
  have hcd : c₁.Fits (ofString "cd") .again := by
    refine hsending.fits ?_
    rcases TcpConnection.length_of_appendRest hrest with hlen | hlen
    · rw [hlen, hnew]
      decide
    · rw [hlen]
      decide
  have h₀ : (fittingSystem 5).Run [] (.established 5, []) := .nil rfl
  have h₁ : (fittingSystem 5).Run [.send (ofString "ab") (.accepted 1)]
      (c₁, [] ++ (ofString "ab").take 1) := h₀.snoc ⟨hab, hwithin, _, hrun, rfl⟩
  obtain ⟨-, -, hnext⟩ := sendSystem_lossless h₁
  obtain ⟨c₂, w₂, -, h₂⟩ := hnext (.send (ofString "cd") .again) hcd trivial
  exact ⟨c₂, _, h₂, (sendSystem_lossless h₂).1⟩

/-- A message of `2 ^ 32` bytes: its length is cast to `0`. -/
def hugeMessage : Bytes := List.replicate (2 ^ 32) (ascii 'a')

theorem length_hugeMessage : hugeMessage.length = 2 ^ 32 := List.length_replicate

theorem run_hugeMessage :
    (sendSystem 5).Run [.send hugeMessage (.accepted 0)] (.established 5, []) := by
  have hlen : intOfSize hugeMessage.length = 0 := by
    rw [length_hugeMessage]
    decide
  have hempty : (TcpConnection.established 5).sendBuf.readablebytes = 0 := by
    rw [(sending_established 5).readablebytes_eq_zero]
  refine LTS.Run.snoc (.nil rfl) ⟨Nat.zero_le _, [], ?_, rfl⟩
  rw [SendEvent.run, TcpConnection.sendString, hlen]
  unfold TcpConnection.sendSized
  rw [if_pos hempty]
  simp only [List.take_zero]
  rfl

/-- Nothing of the message is sent, and nothing of it waits. -/
theorem not_sendSystem_lossless_huge :
    ¬ ∀ connfd es c wire, (sendSystem connfd).Run es (c, wire) →
      wire ++ c.sendBuf.readable = es.flatMap SendEvent.message ∧
      (c.sendBuf.readable ≠ [] → c.channel.writing ∧ c.interest &&& EPOLLOUT = EPOLLOUT) := by
  intro h
  have hsum := (h 5 _ _ _ run_hugeMessage).1
  rw [(sending_established 5).readable] at hsum
  have hnil : hugeMessage = [] := by simpa [SendEvent.message] using hsum
  have hlen := length_hugeMessage
  rw [hnil, List.length_nil] at hlen
  norm_num at hlen

end CppServerStudio
