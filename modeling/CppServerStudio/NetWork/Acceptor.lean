import CppServerStudio.NetWork.Teardown

/-!
# Accepting connections

`AcceptConnection` passes what `accept4` answers on to `TcpServer::HandleNewConnection`, which
asserts that it is not `-1`. `accept4` fails where there are no descriptors left, or where the
client has given up.

## Main definitions

* `Acceptor.acceptConnection`, `Reactors.newConnection`: the two functions
* `acceptSystem`: a server whose `accept4` may fail, under all interleavings of its threads
* `Reactors.KeysOf`: the keys of the map are the descriptors accepted and not yet removed
* `GoesOn`: a failure changes nothing, and the server goes on

## Main results

* `acceptSystem_refines`: the runs of the server are runs of its reactors
* `acceptSystem_keysOf`: the keys of the map in any run
* `goesOn_iff`: the server goes on exactly if `accept4` does not fail
-/

namespace CppServerStudio

open Scanning

/-- An acceptor behind its constructor, in which `Listen` asserts that there is a socket. -/
structure Acceptor where
  listenfd : ℤ
  listening : listenfd ≠ -1

/-- **`TcpServer::HandleNewConnection`**, from its assertion on. -/
def Reactors.newConnection (s : Reactors) (fd : ℤ) : Except ReactorFault Reactors :=
  if fd = -1 then .error .assertFailed else .ok (s.handleNewConnection fd.toNat)

/-- **`Acceptor::AcceptConnection`**, with what `accept4` answers. A failure is logged, and the
callback called all the same. -/
def Acceptor.acceptConnection (acceptor : Acceptor) (s : Reactors) (clntFd : ℤ) :
    Except ReactorFault Reactors :=
  if acceptor.listenfd = -1 then .error .assertFailed else s.newConnection clntFd

/-- A call of `AcceptConnection`, or another step of a thread. -/
inductive AcceptAction
  | acceptConnection (clntFd : ℤ)
  | step (a : ReactorAction)

namespace AcceptAction

/-- **The steps that can be taken.** `accept4` answers `-1`, or a descriptor that is not open. -/
def Enabled (s : Reactors) : AcceptAction → Prop
  | acceptConnection clntFd => (clntFd = -1 ∨ 0 ≤ clntFd ∧ ¬ s.Open clntFd.toNat) ∧
      s.Free .main ∧ (s.loop .main).batch = none
  | step a => s.Enabled a ∧ ∀ fd, a ≠ .accept fd

def run (acceptor : Acceptor) (s : Reactors) : AcceptAction → Except ReactorFault Reactors
  | acceptConnection clntFd => acceptor.acceptConnection s clntFd
  | step a => s.act a

/-- The descriptor that a step accepts. -/
def accepted? : AcceptAction → Option ℕ
  | acceptConnection clntFd => if clntFd = -1 then none else some clntFd.toNat
  | step _ => none

end AcceptAction

/-- The descriptors accepted, in order. -/
def acceptedFds (xs : List AcceptAction) : List ℕ := xs.filterMap AcceptAction.accepted?

/-- **A server with an acceptor**, under all interleavings of its threads. -/
def acceptSystem (acceptor : Acceptor) (threadNums : ℕ) : LTS Reactors AcceptAction where
  init s := s = { threadNums := threadNums }
  step s x t := x.Enabled s ∧ x.run acceptor s = .ok t

/-- **The keys of the map** are those of these descriptors whose connection was not removed yet. -/
def Reactors.KeysOf (s : Reactors) (fds : List ℕ) : Prop :=
  ∀ fd, (s.connectionsMap fd).isSome ↔
    ∃ c : ℕ, fds[c]? = some fd ∧ ∀ erased, .handleCloseInLoop c erased ∉ s.log

/-- **The server goes on**: the keys of the map are the descriptors accepted and not yet removed; no
assertion fails; and a failure of `accept4` changes neither the map, nor the next id, nor the turn
of the loops. -/
structure GoesOn (acceptor : Acceptor) (threadNums : ℕ) (xs : List AcceptAction) : Prop where
  keys : ∀ pre post s, xs = pre ++ post → (acceptSystem acceptor threadNums).Run pre s →
    s.KeysOf (acceptedFds pre)
  serves : ∀ pre x post s, xs = pre ++ x :: post → (acceptSystem acceptor threadNums).Run pre s →
    x.Enabled s → ∃ t, x.run acceptor s = .ok t ∧
      (x = .acceptConnection (-1) → t.connectionsMap = s.connectionsMap ∧
        t.nextConnId = s.nextConnId ∧ t.next = s.next)

/-- No call of `accept4` in the sequence fails. -/
def NoFailure (acceptor : Acceptor) (threadNums : ℕ) (xs : List AcceptAction) : Prop :=
  ∀ pre post s, xs = pre ++ .acceptConnection (-1) :: post →
    (acceptSystem acceptor threadNums).Run pre s →
    ¬ AcceptAction.Enabled s (.acceptConnection (-1))

variable {acceptor : Acceptor} {threadNums : ℕ} {xs : List AcceptAction} {s t : Reactors}

/-! ## The reactors -/

/-- A descriptor makes a connection, and a failure trips the assertion. -/
theorem Acceptor.acceptConnection_eq (acceptor : Acceptor) (s : Reactors) (clntFd : ℤ) :
    acceptor.acceptConnection s clntFd =
      if clntFd = -1 then .error .assertFailed else .ok (s.handleNewConnection clntFd.toNat) := by
  rw [acceptConnection, if_neg acceptor.listening, Reactors.newConnection]

/-- The step of the reactors that a step of the server is. -/
theorem AcceptAction.exists_act {x : AcceptAction} (hx : x.Enabled s)
    (hrun : x.run acceptor s = .ok t) : ∃ a, s.Enabled a ∧ s.act a = .ok t := by
  cases x with
  | acceptConnection clntFd =>
    obtain ⟨hfd, hfree, hbatch⟩ := hx
    rw [run, Acceptor.acceptConnection_eq] at hrun
    split_ifs at hrun with hfail
    obtain ⟨-, hopen⟩ := hfd.resolve_left hfail
    exact ⟨.accept clntFd.toNat, ⟨hopen, hfree, hbatch⟩, hrun⟩
  | step a => exact ⟨a, hx.1, hrun⟩

/-- **The runs of a server** are runs of its reactors. -/
theorem acceptSystem_refines (h : (acceptSystem acceptor threadNums).Run xs s) :
    ∃ actions, (reactorSystem threadNums).Run actions s := by
  refine h.invariant (I := fun s => ∃ actions, (reactorSystem threadNums).Run actions s) ?_ ?_
  · intro s hs
    exact ⟨[], .nil hs⟩
  · rintro s x t ⟨actions, hrun⟩ ⟨henabled, hx⟩
    obtain ⟨a, ha, hact⟩ := AcceptAction.exists_act henabled hx
    exact ⟨actions ++ [a], hrun.snoc ⟨ha, hact⟩⟩

/-! ## The descriptors -/

/-- No other step makes a connection, or changes the descriptor of one. -/
theorem Reactors.connfd_act {a : ReactorAction} (hact : s.act a = .ok t) (ha : s.Enabled a)
    (hne : ∀ fd, a ≠ .accept fd) :
    t.made = s.made ∧ ∀ c, (t.conn c).connfd = (s.conn c).connfd := by
  -- the steps of a connection's life replace it by one with the same descriptor
  have hset : ∀ c x, x.connfd = (s.conn c).connfd →
      ∀ c', ((s.setConn c x).conn c').connfd = (s.conn c').connfd := by
    intro c x hx c'
    by_cases hc : c' = c
    · subst hc
      simpa [setConn] using hx
    · simp [setConn, hc]
  cases a with
  | accept fd => exact absurd rfl (hne fd)
  | acquire c | release c | destroy c =>
    obtain rfl := Except.ok.inj hact
    exact ⟨rfl, hset c _ rfl⟩
  | updateChannel c | swapToDoList l | endToDoList l =>
    obtain rfl := Except.ok.inj hact
    exact ⟨rfl, fun _ => rfl⟩
  | handleClose thread c =>
    obtain rfl := Except.ok.inj hact
    unfold handleClose
    split
    · exact ⟨rfl, hset c _ rfl⟩
    · exact ⟨rfl, fun _ => rfl⟩
  | onClose thread c =>
    obtain ⟨hconn, hmade, -⟩ := onClose_spec hact
    exact ⟨hmade, fun c' => by rw [hconn]⟩
  | callNext l =>
    obtain ⟨-, f, rest, called, hbatch⟩ := ha
    obtain ⟨hconn, hmade, -⟩ := callNext_spec hbatch hact
    exact ⟨hmade, fun c' => by rw [hconn]⟩

theorem acceptedFds_append_singleton (xs : List AcceptAction) (x : AcceptAction) :
    acceptedFds (xs ++ [x]) = acceptedFds xs ++ x.accepted?.toList := by
  rw [acceptedFds, List.filterMap_append, ← acceptedFds]
  cases hx : x.accepted? with
  | none => simp [hx]
  | some fd => simp [hx]

/-- The connections that were made have the descriptors accepted, in order. -/
theorem acceptedFds_eq (h : (acceptSystem acceptor threadNums).Run xs s) :
    acceptedFds xs = (List.range s.made).map fun c => (s.conn c).connfd := by
  refine h.history
    (I := fun xs s => acceptedFds xs = (List.range s.made).map fun c => (s.conn c).connfd) ?_ ?_
  · rintro _ rfl
    rfl
  · rintro xs s x t ih ⟨henabled, hrun⟩
    rw [acceptedFds_append_singleton, ih]
    cases x with
    | acceptConnection clntFd =>
      rw [AcceptAction.run, Acceptor.acceptConnection_eq] at hrun
      split_ifs at hrun with hfail
      obtain rfl := Except.ok.inj hrun
      obtain ⟨hmade, -, hconn, -⟩ := s.handleNewConnection_spec clntFd.toNat
      rw [hmade, hconn, List.range_succ, List.map_append, AcceptAction.accepted?, if_neg hfail]
      congr 1
      · refine List.map_congr_left fun c hc => ?_
        rw [Function.update_of_ne (List.mem_range.mp hc).ne]
      · simp
    | step a =>
      obtain ⟨hmade, hconn⟩ := Reactors.connfd_act hrun henabled.1 henabled.2
      rw [hmade]
      simp [AcceptAction.accepted?, hconn]

namespace Reactors

/-- A connection was not removed if its ledger says so. -/
theorem removals_eq_zero_iff (s : Reactors) (c : ℕ) :
    (s.ledger c).removals = 0 ↔ ∀ erased, .handleCloseInLoop c erased ∉ s.log := by
  have hremovals : (s.ledger c).removals = s.log.countP (ServerCall.removes c) := rfl
  rw [hremovals, List.countP_eq_zero]
  constructor
  · intro h erased hmem
    exact h _ hmem (decide_eq_true rfl)
  · intro h call hmem hcall
    cases call with
    | handleCloseInLoop c' erased =>
      obtain rfl : c' = c := of_decide_eq_true hcall
      exact h erased hmem
    | handleNewConnection _ _ | connectionDestructor _ _ | close _ => cases hcall

/-- **A connection is in the map** from when it is made until it is removed. -/
theorem Orderly.entry_iff (h : s.Orderly) (c : ℕ) :
    s.connectionsMap (s.conn c).connfd = some c ↔
      c < s.made ∧ ∀ erased, .handleCloseInLoop c erased ∉ s.log := by
  have hentry : s.connectionsMap (s.conn c).connfd = some c ↔ (s.ledger c).entry = true :=
    decide_eq_true_iff.symm
  have hmade : c < s.made ↔ (s.ledger c).made = true := decide_eq_true_iff.symm
  obtain ⟨p, hp⟩ := h.phase c
  rw [hentry, hmade, ← removals_eq_zero_iff, hp]
  cases p <;> decide

/-- **The keys of the map** of a server in order. -/
theorem Orderly.keysOf (h : s.Orderly) :
    s.KeysOf ((List.range s.made).map fun c => (s.conn c).connfd) := by
  intro fd
  rw [Option.isSome_iff_exists]
  constructor
  · rintro ⟨c, hc⟩
    have hfd := h.entry_fd fd c hc
    obtain ⟨hmade, hlog⟩ := (h.entry_iff c).mp (hfd ▸ hc)
    exact ⟨c, by simp [hmade, hfd], hlog⟩
  · rintro ⟨c, hfds, hlog⟩
    rw [List.getElem?_map, Option.map_eq_some_iff] at hfds
    obtain ⟨c', hc', hfd⟩ := hfds
    obtain ⟨hlt, heq⟩ := List.getElem?_eq_some_iff.mp hc'
    rw [List.length_range] at hlt
    rw [List.getElem_range] at heq
    subst heq
    exact ⟨c, hfd ▸ (h.entry_iff c).mpr ⟨hlt, hlog⟩⟩

end Reactors

/-- **The keys of the map**, in any run. -/
theorem acceptSystem_keysOf (h : (acceptSystem acceptor threadNums).Run xs s) :
    s.KeysOf (acceptedFds xs) := by
  obtain ⟨actions, hrun⟩ := acceptSystem_refines h
  rw [acceptedFds_eq h]
  exact (orderly_of_run hrun).keysOf

/-! ## Failures -/

/-- **The server goes on** exactly if `accept4` does not fail. -/
theorem goesOn_iff (acceptor : Acceptor) (threadNums : ℕ) (xs : List AcceptAction) :
    GoesOn acceptor threadNums xs ↔ NoFailure acceptor threadNums xs := by
  constructor
  · intro h pre post s heq hrun henabled
    obtain ⟨t, hfail, -⟩ := h.serves pre _ post s heq hrun henabled
    rw [AcceptAction.run, Acceptor.acceptConnection_eq, if_pos rfl] at hfail
    cases hfail
  · intro h
    constructor
    · intro pre post s _ hrun
      exact acceptSystem_keysOf hrun
    · intro pre x post s heq hrun henabled
      obtain ⟨actions, hreactors⟩ := acceptSystem_refines hrun
      cases x with
      | acceptConnection clntFd =>
        have hne : clntFd ≠ -1 := by
          rintro rfl
          exact h pre post s heq hrun henabled
        refine ⟨s.handleNewConnection clntFd.toNat, ?_, fun hx => ?_⟩
        · rw [AcceptAction.run, Acceptor.acceptConnection_eq, if_neg hne]
        · exact absurd (AcceptAction.acceptConnection.inj hx) hne
      | step a =>
        obtain ⟨t, hact, -⟩ := (orderly_of_run hreactors).act henabled.1
        exact ⟨t, hact, fun hx => by cases hx⟩

/-- The first call of `accept4` answers `EMFILE`. -/
theorem not_goesOn : ¬ ∀ (acceptor : Acceptor) (threadNums : ℕ) (xs : List AcceptAction),
    GoesOn acceptor threadNums xs := by
  intro h
  have hgoes := h ⟨3, by decide⟩ 0 [.acceptConnection (-1)]
  have henabled : AcceptAction.Enabled { threadNums := 0 } (.acceptConnection (-1)) :=
    ⟨.inl rfl, fun _ => List.not_mem_nil, rfl⟩
  obtain ⟨t, hfail, -⟩ := hgoes.serves [] _ [] _ rfl (.nil rfl) henabled
  rw [AcceptAction.run, Acceptor.acceptConnection_eq, if_pos rfl] at hfail
  cases hfail

end CppServerStudio
