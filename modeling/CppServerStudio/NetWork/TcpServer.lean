import CppServerStudio.Library.Runs
import CppServerStudio.NetWork.TcpConnection

/-!
# The server across its reactors

`TcpServer` keeps its connections in a map from descriptors, which only the main reactor uses. A
connection is taken down by two functors: `HandleCloseInLoop` on the main reactor, and then
`ConnectionDestructor` on the loop of the connection. Its object lives as long as something holds a
`shared_ptr` to it: the map, a functor, a thread inside `HandleClose`, or any other holder. Then
`~TcpConnection` closes the descriptor. An object is named by the number of objects made before it,
since descriptors and connection ids are used again.

## Main definitions

* `ReactorLoop`, `ConnObject`, `Reactors`: a loop, a connection, and the server with all of them
* `Reactors.handleNewConnection`, `Reactors.handleClose`, `Reactors.handleCloseInLoop`,
  `Reactors.connectionDestructor`: the life of a connection
* `Reactors.act`, `reactorSystem`: the steps of the threads, and their interleavings
-/

namespace CppServerStudio

/-- The loops of a server: the main reactor and the sub-reactors. -/
inductive LoopId
  | main
  | sub (i : ℕ)
  deriving DecidableEq

/-- The functors that take a connection down. -/
inductive CloseFunctor
  | handleCloseInLoop (c : ℕ)
  | connectionDestructor (c : ℕ)
  deriving DecidableEq

/-- The connection a functor is bound to. -/
def CloseFunctor.conn : CloseFunctor → ℕ
  | handleCloseInLoop c => c
  | connectionDestructor c => c

/-- The local vector of `DoToDoList`: the functors left to call, and those called before them. -/
structure Batch where
  rest : List CloseFunctor
  called : List CloseFunctor

/-- A loop, with the connections whose channels are in its epoll set. It has a batch while
`calling_functors_` is set. -/
structure ReactorLoop where
  toDoList : List CloseFunctor := []
  batch : Option Batch := none
  channels : List ℕ := []

namespace ReactorLoop

/-- The functors left to call, in the order of the calls. -/
def pending (l : ReactorLoop) : List CloseFunctor :=
  (match l.batch with
    | none => []
    | some batch => batch.rest) ++ l.toDoList

/-- The functors that hold a reference: a functor in a batch keeps it until the batch ends. -/
def holding (l : ReactorLoop) : List CloseFunctor :=
  match l.batch with
  | none => l.toDoList
  | some batch => batch.called ++ batch.rest ++ l.toDoList

end ReactorLoop

/-- What the life of a `TcpConnection` depends on, with the number of its other holders. -/
structure ConnObject where
  connfd : ℕ := 0
  connid : ℕ := 0
  state : ConnectionState := .invalid
  loop : LoopId := .main
  holders : ℕ := 0
  closed : Bool := false

/-- The calls of a run: a new connection and the entry it replaces, the removal of a connection
and the entry it erases, `ConnectionDestructor` on a thread, and the close of a descriptor. -/
inductive ServerCall
  | handleNewConnection (c : ℕ) (replaced : Option ℕ)
  | handleCloseInLoop (c erased : ℕ)
  | connectionDestructor (thread : LoopId) (c : ℕ)
  | close (c : ℕ)
  deriving DecidableEq

inductive ReactorFault
  | assertFailed
  deriving DecidableEq, Repr

/-- A server, the connections it has made, and the threads inside `HandleClose`. The log is there
for statements alone. -/
structure Reactors where
  threadNums : ℕ
  next : ℕ := 0
  nextConnId : ℕ := 1
  connectionsMap : ℕ → Option ℕ := fun _ => none
  made : ℕ := 0
  conn : ℕ → ConnObject := fun _ => {}
  loop : LoopId → ReactorLoop := fun _ => {}
  closing : List (LoopId × ℕ) := []
  log : List ServerCall := []

namespace Reactors

def setConn (s : Reactors) (c : ℕ) (x : ConnObject) : Reactors :=
  { s with conn := Function.update s.conn c x }

def setLoop (s : Reactors) (l : LoopId) (x : ReactorLoop) : Reactors :=
  { s with loop := Function.update s.loop l x }

/-- An entry of `connectionsMap_` is set or erased. -/
def setEntry (s : Reactors) (fd : ℕ) (entry : Option ℕ) : Reactors :=
  { s with connectionsMap := Function.update s.connectionsMap fd entry }

/-- A thread returns from `HandleClose`. -/
def leaveClose (s : Reactors) (thread : LoopId) (c : ℕ) : Reactors :=
  { s with closing := s.closing.erase (thread, c) }

def record (s : Reactors) (call : ServerCall) : Reactors := { s with log := s.log ++ [call] }

/-! ## Loops -/

/-- **`EventLoopThreadPool::nextloop`**: the sub-reactors in turn. -/
def nextloop (s : Reactors) : LoopId × Reactors :=
  if s.threadNums = 0 then (.main, s)
  else (.sub s.next, { s with next := if s.next + 1 = s.threadNums then 0 else s.next + 1 })

/-- **`EventLoop::QueueOneFunc`**. -/
def queueOneFunc (s : Reactors) (l : LoopId) (f : CloseFunctor) : Reactors :=
  s.setLoop l { s.loop l with toDoList := (s.loop l).toDoList ++ [f] }

/-- `UpdateChannel` on the loop of a connection. -/
def updateChannel (s : Reactors) (c : ℕ) : Reactors :=
  let l := s.loop (s.conn c).loop
  s.setLoop (s.conn c).loop { l with channels := l.channels.insert c }

/-- `DeleteChannel` on the loop of a connection. -/
def deleteChannel (s : Reactors) (c : ℕ) : Reactors :=
  let l := s.loop (s.conn c).loop
  s.setLoop (s.conn c).loop { l with channels := l.channels.erase c }

/-! ## The life of a connection -/

/-- **`TcpServer::HandleNewConnection`**: the constructor and `ConnectionEstablished` both update
the channel. -/
def handleNewConnection (s : Reactors) (fd : ℕ) : Reactors :=
  let (subReactor, s) := s.nextloop
  let c := s.made
  let replaced := s.connectionsMap fd
  let s := { s with made := s.made + 1 }
  let s := s.setConn c { connfd := fd, connid := s.nextConnId, loop := subReactor }
  let s := s.updateChannel c
  let s := s.setEntry fd (some c)
  let s := { s with nextConnId := if s.nextConnId + 1 = 1000 then 1 else s.nextConnId + 1 }
  let s := s.setConn c { s.conn c with state := .connected }
  (s.updateChannel c).record (.handleNewConnection c replaced)

/-- **`TcpServer::HandleCloseInLoop`**. -/
def handleCloseInLoop (s : Reactors) (c : ℕ) : Except ReactorFault Reactors :=
  match s.connectionsMap (s.conn c).connfd with
  | none => .error .assertFailed
  | some erased =>
    let s := s.setEntry (s.conn c).connfd none
    .ok ((s.queueOneFunc (s.conn c).loop (.connectionDestructor c)).record
      (.handleCloseInLoop c erased))

/-- **`TcpConnection::ConnectionDestructor`**, on a thread. -/
def connectionDestructor (s : Reactors) (thread : LoopId) (c : ℕ) : Reactors :=
  (s.deleteChannel c).record (.connectionDestructor thread c)

/-- The call of a functor on a thread. -/
def callFunctor (s : Reactors) (thread : LoopId) :
    CloseFunctor → Except ReactorFault Reactors
  | .handleCloseInLoop c => s.handleCloseInLoop c
  | .connectionDestructor c => .ok (s.connectionDestructor thread c)

/-- **`EventLoop::RunOneFunc`** of the loop `l`, on a thread. -/
def runOneFunc (s : Reactors) (thread l : LoopId) (f : CloseFunctor) :
    Except ReactorFault Reactors :=
  if thread = l then s.callFunctor thread f else .ok (s.queueOneFunc l f)

/-- **`TcpConnection::HandleClose`** up to the call of `on_close_`: the first thread to see the
connection open goes on to it. -/
def handleClose (s : Reactors) (thread : LoopId) (c : ℕ) : Reactors :=
  if (s.conn c).state ≠ .disconected then
    { s.setConn c { s.conn c with state := .disconected } with
      closing := (thread, c) :: s.closing }
  else s

/-- **`TcpServer::HandleClose`**, the `on_close_` of a connection, and the return of the thread from
`TcpConnection::HandleClose`. -/
def onClose (s : Reactors) (thread : LoopId) (c : ℕ) : Except ReactorFault Reactors := do
  let s ← s.runOneFunc thread .main (.handleCloseInLoop c)
  .ok (s.leaveClose thread c)

/-- **`~TcpConnection`**. -/
def destroy (s : Reactors) (c : ℕ) : Reactors :=
  (s.setConn c { s.conn c with closed := true }).record (.close c)

/-! ## The loop of `DoToDoList` -/

/-- The start of `DoToDoList`: the functors are swapped into a local vector. -/
def swapToDoList (s : Reactors) (l : LoopId) : Reactors :=
  s.setLoop l { s.loop l with toDoList := [], batch := some ⟨(s.loop l).toDoList, []⟩ }

/-- One turn of `DoToDoList`. -/
def callNext (s : Reactors) (l : LoopId) : Except ReactorFault Reactors :=
  match (s.loop l).batch with
  | some ⟨f :: rest, called⟩ => do
    let s ← s.callFunctor l f
    .ok (s.setLoop l { s.loop l with batch := some ⟨rest, called ++ [f]⟩ })
  | some ⟨[], _⟩ | none => .ok s

/-- The end of `DoToDoList`, which destroys the vector and with it the references it holds. -/
def endToDoList (s : Reactors) (l : LoopId) : Reactors :=
  s.setLoop l { s.loop l with batch := none }

end Reactors

/-! ## Interleavings -/

/-- The steps of the threads. -/
inductive ReactorAction
  /-- The main reactor accepts a connection. -/
  | accept (fd : ℕ)
  /-- Some thread takes, or drops, a reference to a connection. -/
  | acquire (c : ℕ)
  | release (c : ℕ)
  /-- Some thread enables an event on the channel of a connection. -/
  | updateChannel (c : ℕ)
  /-- A thread calls `HandleClose` on a connection, and goes on with its `on_close_`. -/
  | handleClose (thread : LoopId) (c : ℕ)
  | onClose (thread : LoopId) (c : ℕ)
  /-- The thread of a loop starts `DoToDoList`, calls one functor, and ends it. -/
  | swapToDoList (l : LoopId)
  | callNext (l : LoopId)
  | endToDoList (l : LoopId)
  /-- The last reference to a connection is gone. -/
  | destroy (c : ℕ)

namespace Reactors

variable (s : Reactors)

/-- The descriptors of the connections that are not closed. -/
def Open (fd : ℕ) : Prop := ∃ c < s.made, (s.conn c).closed = false ∧ (s.conn c).connfd = fd

/-- Something holds a reference to the connection. -/
def Referenced (c : ℕ) : Prop :=
  0 < (s.conn c).holders ∨ (∃ fd, s.connectionsMap fd = some c) ∨
    (∃ thread, (thread, c) ∈ s.closing) ∨ ∃ l, ∃ f ∈ (s.loop l).holding, f.conn = c

/-- The thread of a loop is not inside `HandleClose`. -/
def Free (thread : LoopId) : Prop := ∀ c, (thread, c) ∉ s.closing

/-- **The steps that can be taken.** `accept` returns a descriptor that is not open, and events
are handled outside `DoToDoList`. -/
def Enabled : ReactorAction → Prop
  | .accept fd => ¬ s.Open fd ∧ s.Free .main ∧ (s.loop .main).batch = none
  | .acquire c => s.Referenced c
  | .release c => 0 < (s.conn c).holders
  -- the callbacks of a channel keep a plain pointer, so no reference is asked for here
  | .updateChannel c => c < s.made
  | .handleClose thread c => c < s.made ∧ s.Free thread
  | .onClose thread c => (thread, c) ∈ s.closing
  | .swapToDoList l => s.Free l ∧ (s.loop l).batch = none
  | .callNext l => s.Free l ∧ ∃ f rest called, (s.loop l).batch = some ⟨f :: rest, called⟩
  | .endToDoList l => s.Free l ∧ ∃ called, (s.loop l).batch = some ⟨[], called⟩
  | .destroy c => c < s.made ∧ (s.conn c).closed = false ∧ ¬ s.Referenced c

/-- What a step does. -/
def act : ReactorAction → Except ReactorFault Reactors
  | .accept fd => .ok (s.handleNewConnection fd)
  | .acquire c => .ok (s.setConn c { s.conn c with holders := (s.conn c).holders + 1 })
  | .release c => .ok (s.setConn c { s.conn c with holders := (s.conn c).holders - 1 })
  | .updateChannel c => .ok (s.updateChannel c)
  | .handleClose thread c => .ok (s.handleClose thread c)
  | .onClose thread c => s.onClose thread c
  | .swapToDoList l => .ok (s.swapToDoList l)
  | .callNext l => s.callNext l
  | .endToDoList l => .ok (s.endToDoList l)
  | .destroy c => .ok (s.destroy c)

end Reactors

/-- **A server with some number of sub-reactors**, under all interleavings of its threads. -/
def reactorSystem (threadNums : ℕ) : LTS Reactors ReactorAction where
  init s := s = { threadNums := threadNums }
  step s a t := s.Enabled a ∧ s.act a = .ok t

end CppServerStudio
