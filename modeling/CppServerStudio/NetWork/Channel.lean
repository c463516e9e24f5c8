import CppServerStudio.Util.Bytes

/-!
# Channels and the poller

A `Channel` keeps the events it listens for in a `short`, and hands them to `epoll_ctl` widened to
32 bits.

## Main definitions

* `Channel.enable`: `listen_events_ |= flags`, in a `short`
* `EpollCtl`, `Epoller.updateChannel`: the `epoll_ctl` call of an update
* `Channel.enableRead`, `Channel.enableWrite`, `Channel.enableET`

## Main results

* `Channel.enableWrite_writing`, `Channel.enableWrite_events`: the effect of `EnableWrite`
-/

namespace CppServerStudio

def EPOLLIN : BitVec 32 := 0x1
def EPOLLPRI : BitVec 32 := 0x2
def EPOLLOUT : BitVec 32 := 0x4
def EPOLLET : BitVec 32 := 0x80000000

/-- A channel. `writeCallback` is unset once a send error has replaced the callback by one that
does nothing. -/
structure Channel where
  fd : ℤ
  listenEvents : BitVec 16 := 0
  inEpoll : Bool := false
  writeCallback : Bool := false
  deriving DecidableEq

/-- An `epoll_ctl` call on the descriptor of a channel, with the mask of its event. -/
inductive EpollCtl
  | add (events : BitVec 32)
  | mod (events : BitVec 32)
  deriving DecidableEq, Repr

def EpollCtl.events : EpollCtl → BitVec 32
  | add events => events
  | mod events => events

/-- The call with which `Epoller::UpdateChannel` registers what a channel listens for. -/
def Epoller.updateChannel (ch : Channel) : Channel × EpollCtl :=
  let events := ch.listenEvents.signExtend 32
  if ¬ ch.inEpoll then ({ ch with inEpoll := true }, .add events) else (ch, .mod events)

namespace Channel

/-- `listen_events_ |= flags`: the sum is formed in 32 bits and stored in 16. -/
def enable (ch : Channel) (flags : BitVec 32) : Channel :=
  { ch with listenEvents := (ch.listenEvents.signExtend 32 ||| flags).setWidth 16 }

def enableRead (ch : Channel) : Channel × EpollCtl :=
  Epoller.updateChannel (ch.enable (EPOLLIN ||| EPOLLPRI))

def enableWrite (ch : Channel) : Channel × EpollCtl := Epoller.updateChannel (ch.enable EPOLLOUT)

def enableET (ch : Channel) : Channel × EpollCtl := Epoller.updateChannel (ch.enable EPOLLET)

/-- The channel listens for `EPOLLOUT`. -/
def writing (ch : Channel) : Prop := ch.listenEvents.signExtend 32 &&& EPOLLOUT = EPOLLOUT

instance (ch : Channel) : Decidable ch.writing := inferInstanceAs (Decidable (_ = _))

theorem and_EPOLLOUT_eq_iff (events : BitVec 32) :
    events &&& EPOLLOUT = EPOLLOUT ↔ events.getLsbD 2 = true := by
  have hbit : EPOLLOUT = BitVec.twoPow 32 2 := by decide
  rw [hbit, BitVec.and_twoPow]
  split_ifs with h
  · simp [h]
  · simp only [h]
    decide

/-- The bit of `EPOLLOUT` fits a `short`. -/
theorem enable_writing (ch : Channel) : (ch.enable EPOLLOUT).writing := by
  rw [writing, and_EPOLLOUT_eq_iff, enable]
  simp [EPOLLOUT]

/-- An update registers what the channel listens for. -/
theorem updateChannel_events (ch : Channel) :
    (Epoller.updateChannel ch).1.listenEvents = ch.listenEvents ∧
    (Epoller.updateChannel ch).2.events = ch.listenEvents.signExtend 32 := by
  rw [Epoller.updateChannel]
  split_ifs <;> exact ⟨rfl, rfl⟩

theorem enableWrite_writing (ch : Channel) : ch.enableWrite.1.writing := by
  rw [writing, enableWrite, (updateChannel_events _).1]
  exact ch.enable_writing

/-- **`EnableWrite` asks the poller for `EPOLLOUT`.** -/
theorem enableWrite_events (ch : Channel) :
    ch.enableWrite.2.events &&& EPOLLOUT = EPOLLOUT := by
  rw [enableWrite, (updateChannel_events _).2]
  exact ch.enable_writing

end Channel

end CppServerStudio
