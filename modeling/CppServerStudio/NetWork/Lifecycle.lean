import CppServerStudio.NetWork.TcpServer

/-!
# The life of a connection

Every connection is in one of six phases. What the queues, the map and the log of a server say
about a connection is its ledger, and each phase has one. A step of a thread moves the ledger of at
most one connection, from the ledger of a phase to that of the next one. The phases are an invariant
of all interleavings, and what may go wrong across the reactors is excluded by the phase the
connection is in.

## Main definitions

* `Ledger`, `Reactors.ledger`: what a server says about a connection
* `Phase`: the phases of a connection, with their ledgers
* `Reactors.Orderly`: the invariant of the interleavings

## Main results

* `Reactors.Orderly.act`: one step keeps the invariant, and its assertion does not fail
* `reactorSystem_orderly`: no interleaving removes, overwrites or closes the wrong connection
-/

namespace CppServerStudio

open Scanning

namespace ServerCall

/-- The call removes the connection from the map. -/
def removes (c : ℕ) : ServerCall → Bool
  | handleCloseInLoop c' _ => c' = c
  | _ => false

/-- The call detaches the connection from a loop. -/
def detaches (c : ℕ) : ServerCall → Bool
  | connectionDestructor _ c' => c' = c
  | _ => false

/-- **A sound call**, after the calls before it: a new connection replaces no entry, a connection is
removed once and erases its own entry, it is detached on its own loop, and its descriptor is closed
after that. -/
def Sound (own : ℕ → LoopId) (before : List ServerCall) : ServerCall → Prop
  | handleNewConnection _ replaced => replaced = none
  | handleCloseInLoop c erased => erased = c ∧ ∀ e, handleCloseInLoop c e ∉ before
  | connectionDestructor thread c => thread = own c
  | close c => connectionDestructor (own c) c ∈ before

end ServerCall

/-- **A sound log**: each call is sound after those before it. -/
def SoundLog (own : ℕ → LoopId) (log : List ServerCall) : Prop :=
  ∀ before call later, log = before ++ call :: later → call.Sound own before

namespace SoundLog

variable {own own' : ℕ → LoopId} {log : List ServerCall} {call : ServerCall}

theorem snoc (h : SoundLog own log) (hcall : call.Sound own log) :
    SoundLog own (log ++ [call]) := by
  intro before call' later hsplit
  rcases List.eq_nil_or_concat later with rfl | ⟨later, last, rfl⟩
  · obtain ⟨rfl, hlast⟩ := List.append_inj' hsplit rfl
    obtain rfl : call = call' := by simpa using hlast
    exact hcall
  · rw [List.concat_eq_append, ← List.cons_append, ← List.append_assoc] at hsplit
    exact h before call' later (List.append_inj' hsplit rfl).1

/-- A detachment in the log took place on the connection's own loop. -/
theorem own_of_mem (h : SoundLog own log) {thread : LoopId} {c : ℕ}
    (hmem : .connectionDestructor thread c ∈ log) : thread = own c := by
  obtain ⟨before, later, hsplit⟩ := List.append_of_mem hmem
  exact h before _ later hsplit

/-- The loop of a connection that was not detached does not matter. -/
theorem congr (h : SoundLog own log) {c : ℕ} (hown : ∀ c', c' ≠ c → own' c' = own c')
    (hnone : ∀ thread, .connectionDestructor thread c ∉ log) : SoundLog own' log := by
  intro before call later hsplit
  have hcall := h before call later hsplit
  cases call with
  | handleNewConnection _ _ => exact hcall
  | handleCloseInLoop _ _ => exact hcall
  | connectionDestructor thread c' =>
    have hne : c' ≠ c := by
      rintro rfl
      exact hnone thread (by simp [hsplit])
    exact Eq.trans hcall (hown c' hne).symm
  | close c' =>
    have hne : c' ≠ c := by
      rintro rfl
      refine hnone (own c') ?_
      rw [hsplit]
      exact List.mem_append_left _ hcall
    rw [ServerCall.Sound, hown c' hne]
    exact hcall

end SoundLog

/-- What a server says about a connection. -/
@[ext] structure Ledger where
  made : Bool
  state : ConnectionState
  /-- The map has an entry for the connection. -/
  entry : Bool
  /-- How often `HandleCloseInLoop` is still to be called. -/
  closes : ℕ
  /-- How often `ConnectionDestructor` is still to be called on the connection's own loop. -/
  destructors : ℕ
  /-- How often `HandleCloseInLoop` and `ConnectionDestructor` have been called. -/
  removals : ℕ
  detachments : ℕ
  closed : Bool
  deriving DecidableEq

/-- A ledger with more calls still to come. -/
def Ledger.owe (x : Ledger) (closes destructors : ℕ) : Ledger :=
  { x with closes := x.closes + closes, destructors := x.destructors + destructors }

@[simp] theorem Ledger.owe_zero (x : Ledger) : x.owe 0 0 = x := rfl

theorem Ledger.owe_injective {x y : Ledger} {closes destructors : ℕ}
    (h : x.owe closes destructors = y.owe closes destructors) : x = y := by
  cases x
  cases y
  simpa [owe] using h

/-- The ledger of a connection. -/
def Reactors.ledger (s : Reactors) (c : ℕ) : Ledger where
  made := c < s.made
  state := (s.conn c).state
  entry := s.connectionsMap (s.conn c).connfd = some c
  closes := s.closing.countP (fun x => x.2 = c) +
    (s.loop .main).pending.count (.handleCloseInLoop c)
  destructors := (s.loop (s.conn c).loop).pending.count (.connectionDestructor c)
  removals := s.log.countP (ServerCall.removes c)
  detachments := s.log.countP (ServerCall.detaches c)
  closed := (s.conn c).closed

/-- **The phases of a connection**: not made yet, open, seen closed, out of the map, out of its
epoll loop, and with its descriptor closed. -/
inductive Phase
  | unborn | live | closing | removed | detached | closed

def Phase.ledger : Phase → Ledger
  | unborn => ⟨false, .invalid, false, 0, 0, 0, 0, false⟩
  | live => ⟨true, .connected, true, 0, 0, 0, 0, false⟩
  | closing => ⟨true, .disconected, true, 1, 0, 0, 0, false⟩
  | removed => ⟨true, .disconected, false, 0, 1, 1, 0, false⟩
  | detached => ⟨true, .disconected, false, 0, 0, 1, 1, false⟩
  | closed => ⟨true, .disconected, false, 0, 0, 1, 1, true⟩

theorem ReactorLoop.mem_holding {l : ReactorLoop} {f : CloseFunctor} (h : f ∈ l.pending) :
    f ∈ l.holding := by
  unfold pending at h
  unfold holding
  cases hbatch : l.batch with
  | none => simpa [hbatch] using h
  | some batch =>
    simp only [hbatch, List.mem_append] at h ⊢
    tauto

namespace Reactors

variable {s : Reactors}

/-! ## Queues -/

section Pending

@[simp] theorem pending_queueOneFunc (l l' : LoopId) (f : CloseFunctor) :
    ((s.queueOneFunc l f).loop l').pending =
      (s.loop l').pending ++ if l' = l then [f] else [] := by
  unfold queueOneFunc setLoop
  by_cases h : l' = l
  · subst h
    simp [ReactorLoop.pending]
  · simp [h]

/-- A change of a loop that keeps its functors. -/
theorem pending_setLoop {l : LoopId} {x : ReactorLoop} (h : x.pending = (s.loop l).pending)
    (l' : LoopId) : ((s.setLoop l x).loop l').pending = (s.loop l').pending := by
  unfold setLoop
  by_cases hl : l' = l
  · subst hl
    simpa using h
  · simp [hl]

@[simp] theorem pending_updateChannel (c : ℕ) (l : LoopId) :
    ((s.updateChannel c).loop l).pending = (s.loop l).pending :=
  pending_setLoop (x := { s.loop (s.conn c).loop with
    channels := (s.loop (s.conn c).loop).channels.insert c }) rfl l

/-- The step from one functor of a batch to the next. -/
theorem pending_advance {l : LoopId} {f : CloseFunctor} {rest called : List CloseFunctor}
    (h : (s.loop l).batch = some ⟨f :: rest, called⟩) (called' : List CloseFunctor) (l' : LoopId) :
    (s.loop l').pending = (if l' = l then [f] else []) ++
      ((s.setLoop l { s.loop l with batch := some ⟨rest, called'⟩ }).loop l').pending := by
  unfold setLoop
  by_cases hl : l' = l
  · subst hl
    simp [ReactorLoop.pending, h]
  · simp [hl]

theorem count_queueOneFunc (l l' : LoopId) (f g : CloseFunctor) :
    ((s.queueOneFunc l f).loop l').pending.count g =
      (s.loop l').pending.count g + if l' = l ∧ f = g then 1 else 0 := by
  rw [pending_queueOneFunc, List.count_append]
  by_cases hl : l' = l <;> by_cases hf : f = g <;> simp [hl, hf]

theorem count_advance {l : LoopId} {f : CloseFunctor} {rest called : List CloseFunctor}
    (h : (s.loop l).batch = some ⟨f :: rest, called⟩) (called' : List CloseFunctor) (l' : LoopId)
    (g : CloseFunctor) :
    (s.loop l').pending.count g =
      ((s.setLoop l { s.loop l with batch := some ⟨rest, called'⟩ }).loop l').pending.count g +
        if l' = l ∧ f = g then 1 else 0 := by
  rw [pending_advance h called' l', List.count_append, Nat.add_comm]
  by_cases hl : l' = l <;> by_cases hf : f = g <;> simp [hl, hf]

end Pending

/-! ## What the steps do to a ledger -/

section Ledger

/-- A change of a connection that the ledgers do not show. -/
theorem ledger_setConn {c : ℕ} {x : ConnObject} (hfd : x.connfd = (s.conn c).connfd)
    (hstate : x.state = (s.conn c).state) (hloop : x.loop = (s.conn c).loop)
    (hclosed : x.closed = (s.conn c).closed) (c' : ℕ) :
    (s.setConn c x).ledger c' = s.ledger c' := by
  by_cases h : c' = c
  · subst h
    ext <;> first | rfl | simp [ledger, setConn, hfd, hstate, hloop, hclosed]
  · ext <;> first | rfl | simp [ledger, setConn, h]

/-- A change of a loop that the ledgers do not show. -/
theorem ledger_setLoop {l : LoopId} {x : ReactorLoop} (h : x.pending = (s.loop l).pending)
    (c : ℕ) : (s.setLoop l x).ledger c = s.ledger c := by
  have hpending := pending_setLoop h
  ext <;> simp only [ledger, hpending] <;> rfl

@[simp] theorem ledger_updateChannel (c c' : ℕ) :
    (s.updateChannel c).ledger c' = s.ledger c' :=
  ledger_setLoop (x := { s.loop (s.conn c).loop with
    channels := (s.loop (s.conn c).loop).channels.insert c }) rfl c'

@[simp] theorem ledger_deleteChannel (c c' : ℕ) :
    (s.deleteChannel c).ledger c' = s.ledger c' :=
  ledger_setLoop (x := { s.loop (s.conn c).loop with
    channels := (s.loop (s.conn c).loop).channels.erase c }) rfl c'

theorem ledger_record (call : ServerCall) (c : ℕ) :
    (s.record call).ledger c = { s.ledger c with
      removals := (s.ledger c).removals + if call.removes c then 1 else 0
      detachments := (s.ledger c).detachments + if call.detaches c then 1 else 0 } := by
  ext <;> first | rfl | simp [ledger, record]

/-- A queued `HandleCloseInLoop`. -/
theorem ledger_queue_handleCloseInLoop (c c' : ℕ) :
    (s.queueOneFunc .main (.handleCloseInLoop c)).ledger c' =
      (s.ledger c').owe (if c = c' then 1 else 0) 0 := by
  ext <;> try rfl
  · simp only [ledger, Ledger.owe, count_queueOneFunc, true_and,
      CloseFunctor.handleCloseInLoop.injEq]
    exact (Nat.add_assoc _ _ _).symm
  · simp only [ledger, Ledger.owe, count_queueOneFunc, reduceCtorEq, and_false, if_false]
    rfl

/-- A queued `ConnectionDestructor`. -/
theorem ledger_queue_connectionDestructor (c c' : ℕ) :
    (s.queueOneFunc (s.conn c).loop (.connectionDestructor c)).ledger c' =
      (s.ledger c').owe 0 (if c = c' then 1 else 0) := by
  ext <;> try rfl
  · simp only [ledger, Ledger.owe, count_queueOneFunc, reduceCtorEq, and_false, if_false]
    rfl
  · simp only [ledger, Ledger.owe, count_queueOneFunc, CloseFunctor.connectionDestructor.injEq]
    by_cases h : c = c'
    · subst h
      simp [queueOneFunc, setLoop]
    · simp [h, queueOneFunc, setLoop]

/-- A thread that leaves `HandleClose`. -/
theorem ledger_leaveClose {thread : LoopId} {c : ℕ} (h : (thread, c) ∈ s.closing) (c' : ℕ) :
    s.ledger c' = ((s.leaveClose thread c).ledger c').owe (if c = c' then 1 else 0) 0 := by
  ext <;> try rfl
  have hcount := (List.perm_cons_erase h).countP_eq (fun x => decide (x.2 = c'))
  rw [List.countP_cons] at hcount
  simp only [ledger, Ledger.owe, leaveClose, hcount, decide_eq_true_eq]
  omega

/-- The first call of `HandleClose`. -/
theorem ledger_handleClose {thread : LoopId} {c : ℕ} (h : (s.conn c).state ≠ .disconected)
    (c' : ℕ) : (s.handleClose thread c).ledger c' =
      if c' = c then { s.ledger c with state := .disconected, closes := (s.ledger c).closes + 1 }
      else s.ledger c' := by
  rw [handleClose, if_pos h]
  by_cases hc : c' = c
  · subst hc
    rw [if_pos rfl]
    ext <;> first | rfl | simp [ledger, setConn]
    omega
  · rw [if_neg hc]
    ext <;> first | rfl | simp [ledger, setConn, hc, Ne.symm hc]

/-- The step behind the call of a functor. -/
theorem ledger_advance {l : LoopId} {f : CloseFunctor} {rest called : List CloseFunctor}
    (h : (s.loop l).batch = some ⟨f :: rest, called⟩) (called' : List CloseFunctor) (c : ℕ) :
    s.ledger c = ((s.setLoop l { s.loop l with batch := some ⟨rest, called'⟩ }).ledger c).owe
      (if .main = l ∧ f = .handleCloseInLoop c then 1 else 0)
      (if (s.conn c).loop = l ∧ f = .connectionDestructor c then 1 else 0) := by
  ext <;> try rfl
  · simp only [ledger, Ledger.owe, count_advance h called' .main]
    exact (Nat.add_assoc _ _ _).symm
  · simp only [ledger, Ledger.owe, count_advance h called' (s.conn c).loop]
    rfl

/-- An erased entry. -/
theorem ledger_eraseEntry {c : ℕ} (hentry : s.connectionsMap (s.conn c).connfd = some c) (c' : ℕ) :
    (s.setEntry (s.conn c).connfd none).ledger c' =
      { s.ledger c' with entry := (s.ledger c').entry && decide (c ≠ c') } := by
  ext <;> try rfl
  by_cases hfd : (s.conn c').connfd = (s.conn c).connfd
  · simp only [ledger, setEntry, hfd, Function.update_self, hentry, Option.some.injEq]
    by_cases h : c = c' <;> simp [h]
  · have hne : c ≠ c' := by
      rintro rfl
      exact hfd rfl
    simp [ledger, setEntry, hfd, hne]

theorem nextloop_eq : ∃ n, s.nextloop = (s.nextloop.1, { s with next := n }) := by
  unfold nextloop
  split
  · exact ⟨s.next, rfl⟩
  · exact ⟨_, rfl⟩

/-- What a new connection leaves as it is. -/
theorem handleNewConnection_spec (fd : ℕ) :
    (s.handleNewConnection fd).made = s.made + 1 ∧
    (s.handleNewConnection fd).connectionsMap =
      Function.update s.connectionsMap fd (some s.made) ∧
    (s.handleNewConnection fd).conn = Function.update s.conn s.made
      ⟨fd, s.nextConnId, .connected, s.nextloop.1, 0, false⟩ ∧
    (∀ l, ((s.handleNewConnection fd).loop l).pending = (s.loop l).pending) ∧
    (s.handleNewConnection fd).closing = s.closing ∧
    (s.handleNewConnection fd).log =
      s.log ++ [.handleNewConnection s.made (s.connectionsMap fd)] := by
  obtain ⟨n, hn⟩ := s.nextloop_eq
  unfold handleNewConnection
  rw [hn]
  refine ⟨rfl, rfl, ?_, ?_, rfl, rfl⟩
  · simp [setConn, updateChannel, setLoop, record, setEntry]
  · intro l
    exact (pending_updateChannel _ l).trans (pending_updateChannel _ l)

/-- A new connection, over no entry. -/
theorem ledger_handleNewConnection {fd : ℕ} (hunborn : s.ledger s.made = Phase.unborn.ledger)
    (hdestructor : ∀ l, .connectionDestructor s.made ∉ (s.loop l).pending)
    (hfd : s.connectionsMap fd = none) (c : ℕ) :
    (s.handleNewConnection fd).ledger c = if c = s.made then Phase.live.ledger else s.ledger c := by
  obtain ⟨hmade, hmap, hconn, hpending, hclosing, hlog⟩ := s.handleNewConnection_spec fd
  by_cases h : c = s.made
  · subst h
    rw [if_pos rfl]
    have hcloses := congrArg Ledger.closes hunborn
    have hremovals := congrArg Ledger.removals hunborn
    have hdetachments := congrArg Ledger.detachments hunborn
    simp only [ledger, Phase.ledger] at hcloses hremovals hdetachments
    ext <;> simp only [ledger, hmade, hmap, hconn, hpending, hclosing, hlog, hcloses, hremovals,
      hdetachments, Phase.ledger, Function.update_self, List.countP_append]
    · simp
    · simp
    · exact List.count_eq_zero.mpr (hdestructor _)
    · rfl
    · rfl
  · rw [if_neg h]
    ext <;> simp only [ledger, hmade, hmap, hconn, hpending, hclosing, hlog,
      Function.update_of_ne h, List.countP_append]
    · simp
      omega
    -- only the entry of `fd` changes, and there was none
    · by_cases hc : (s.conn c).connfd = fd
      · rw [hc, Function.update_self, hfd]
        simp [Ne.symm h]
      · rw [Function.update_of_ne hc]
    · rfl
    · rfl

end Ledger

/-! ## The invariant -/

/-- What the map, the queues and the log say about the connections they name. -/
structure Tidy (s : Reactors) : Prop where
  /-- An entry is under the descriptor of its connection. -/
  entry_fd : ∀ fd c, s.connectionsMap fd = some c → (s.conn c).connfd = fd
  /-- Connections are removed on the main reactor. -/
  close_main : ∀ l c, .handleCloseInLoop c ∈ (s.loop l).pending → l = .main
  /-- Connections are detached on their own loop. -/
  destructor_own : ∀ l c, .connectionDestructor c ∈ (s.loop l).pending → l = (s.conn c).loop
  /-- Every call so far is sound. -/
  sound : SoundLog (fun c => (s.conn c).loop) s.log

/-- **The invariant**: every connection is in a phase, and what names connections is tidy. -/
structure Orderly (s : Reactors) : Prop extends Tidy s where
  phase : ∀ c, ∃ p : Phase, s.ledger c = p.ledger

section Tidy

variable {t : Reactors}

/-- Fewer entries and functors, and the same log, stay tidy. -/
theorem Tidy.mono (h : s.Tidy)
    (hmap : ∀ fd c, t.connectionsMap fd = some c → s.connectionsMap fd = some c)
    (hfd : ∀ c, (t.conn c).connfd = (s.conn c).connfd)
    (hloop : ∀ c, (t.conn c).loop = (s.conn c).loop)
    (hpending : ∀ l f, f ∈ (t.loop l).pending → f ∈ (s.loop l).pending)
    (hlog : t.log = s.log) : t.Tidy where
  entry_fd fd c hc := (hfd c).trans (h.entry_fd fd c (hmap fd c hc))
  close_main l c hc := h.close_main l c (hpending l _ hc)
  destructor_own l c hc := (h.destructor_own l c (hpending l _ hc)).trans (hloop c).symm
  sound := by
    rw [funext hloop, hlog]
    exact h.sound

/-- A sound call keeps the log sound. -/
theorem Tidy.record (h : s.Tidy) (call : ServerCall)
    (hcall : call.Sound (fun c => (s.conn c).loop) s.log) : (s.record call).Tidy where
  entry_fd := h.entry_fd
  close_main := h.close_main
  destructor_own := h.destructor_own
  sound := h.sound.snoc hcall

/-- A functor queued on its loop. -/
theorem Tidy.queueOneFunc (h : s.Tidy) {l : LoopId} {f : CloseFunctor}
    (hclose : ∀ c, f = .handleCloseInLoop c → l = .main)
    (hdestructor : ∀ c, f = .connectionDestructor c → l = (s.conn c).loop) :
    (s.queueOneFunc l f).Tidy where
  entry_fd := h.entry_fd
  close_main l' c hc := by
    rw [pending_queueOneFunc, List.mem_append] at hc
    rcases hc with hc | hc
    · exact h.close_main l' c hc
    · split_ifs at hc with hl
      · exact hl.trans (hclose c (List.mem_singleton.mp hc).symm)
      · cases hc
  destructor_own l' c hc := by
    rw [pending_queueOneFunc, List.mem_append] at hc
    rcases hc with hc | hc
    · exact h.destructor_own l' c hc
    · split_ifs at hc with hl
      · exact hl.trans (hdestructor c (List.mem_singleton.mp hc).symm)
      · cases hc
  sound := h.sound

/-- A change of a loop that adds no functor. -/
theorem Tidy.setLoop (h : s.Tidy) {l : LoopId} {x : ReactorLoop}
    (hx : ∀ f ∈ x.pending, f ∈ (s.loop l).pending) : (s.setLoop l x).Tidy := by
  refine h.mono (fun _ _ => id) (fun _ => rfl) (fun _ => rfl) ?_ rfl
  intro l' f hf
  by_cases hl : l' = l
  · subst hl
    exact hx f (by simpa [Reactors.setLoop] using hf)
  · simpa [Reactors.setLoop, hl] using hf

/-- The step from one functor of a batch to the next. -/
theorem Tidy.advance (h : s.Tidy) {l : LoopId} {f : CloseFunctor}
    {rest called called' : List CloseFunctor}
    (hbatch : (s.loop l).batch = some ⟨f :: rest, called⟩) :
    (s.setLoop l { s.loop l with batch := some ⟨rest, called'⟩ }).Tidy := by
  refine h.setLoop fun g hg => ?_
  simp only [ReactorLoop.pending, hbatch, List.cons_append, List.mem_cons] at hg ⊢
  exact Or.inr hg

/-- A change of a connection that keeps its descriptor and its loop. -/
theorem Tidy.setConn (h : s.Tidy) {c : ℕ} {x : ConnObject} (hfd : x.connfd = (s.conn c).connfd)
    (hloop : x.loop = (s.conn c).loop) : (s.setConn c x).Tidy := by
  refine h.mono (fun _ _ => id) ?_ ?_ (fun _ _ => id) rfl <;> intro c' <;>
    by_cases hc : c' = c
  · subst hc; simpa [Reactors.setConn] using hfd
  · simp [Reactors.setConn, hc]
  · subst hc; simpa [Reactors.setConn] using hloop
  · simp [Reactors.setConn, hc]

end Tidy

/-! ## What a phase says -/

section Phases

variable {c : ℕ}

/-- A connection with a removal to come is closing. -/
theorem Orderly.closing_of_closes (h : s.Orderly) (hc : 0 < (s.ledger c).closes) :
    s.ledger c = Phase.closing.ledger := by
  obtain ⟨p, hp⟩ := h.phase c
  rw [hp] at hc ⊢
  cases p <;> first | rfl | cases hc

/-- A connection with a detachment to come is removed. -/
theorem Orderly.removed_of_destructors (h : s.Orderly) (hc : 0 < (s.ledger c).destructors) :
    s.ledger c = Phase.removed.ledger := by
  obtain ⟨p, hp⟩ := h.phase c
  rw [hp] at hc ⊢
  cases p <;> first | rfl | cases hc

/-- A connection that exists and was not seen closed is live. -/
theorem Orderly.live_of_state (h : s.Orderly) (hmade : c < s.made)
    (hstate : (s.conn c).state ≠ .disconected) : s.ledger c = Phase.live.ledger := by
  obtain ⟨p, hp⟩ := h.phase c
  have hmade' := congrArg Ledger.made hp
  have hstate' := congrArg Ledger.state hp
  simp only [ledger, hmade, decide_true] at hmade' hstate'
  rw [hstate'] at hstate
  rw [hp]
  cases p <;> first | rfl | exact absurd hmade' (by decide) | exact absurd rfl hstate

/-- A connection in the map is open. -/
theorem Orderly.open_of_entry (h : s.Orderly) {fd : ℕ} (hentry : s.connectionsMap fd = some c) :
    s.Open fd := by
  obtain ⟨p, hp⟩ := h.phase c
  have hfd := h.entry_fd fd c hentry
  have hentry' := congrArg Ledger.entry hp
  have hmade := congrArg Ledger.made hp
  have hclosed := congrArg Ledger.closed hp
  simp only [ledger, hfd, hentry, decide_true] at hentry' hmade hclosed
  refine ⟨c, ?_, ?_, hfd⟩
  · cases p <;> first | exact absurd hentry' (by decide) | exact of_decide_eq_true hmade
  · cases p <;> first | exact absurd hentry' (by decide) | exact hclosed

/-- A connection that nothing refers to was detached. -/
theorem Orderly.detached_of_unreferenced (h : s.Orderly) (hmade : c < s.made)
    (hclosed : (s.conn c).closed = false) (hunreferenced : ¬ s.Referenced c) :
    s.ledger c = Phase.detached.ledger := by
  have hentry : (s.ledger c).entry = false := by
    refine decide_eq_false fun hentry => hunreferenced ?_
    exact Or.inr (Or.inl ⟨_, hentry⟩)
  have hdestructors : (s.ledger c).destructors = 0 := by
    refine List.count_eq_zero.mpr fun hf => hunreferenced ?_
    exact Or.inr (Or.inr (Or.inr ⟨_, _, ReactorLoop.mem_holding hf, rfl⟩))
  have hmade' : (s.ledger c).made = true := decide_eq_true hmade
  have hclosed' : (s.ledger c).closed = false := hclosed
  obtain ⟨p, hp⟩ := h.phase c
  rw [hp] at hentry hdestructors hmade' hclosed' ⊢
  cases p with
  | unborn => exact absurd hmade' (by decide)
  | live | closing => exact absurd hentry (by decide)
  | removed => exact absurd hdestructors (by decide)
  | detached => rfl
  | closed => exact absurd hclosed' (by decide)

end Phases

/-! ## One step -/

section Step

variable {c : ℕ}

theorem mem_pending_of_batch {l : LoopId} {f : CloseFunctor} {rest called : List CloseFunctor}
    (h : (s.loop l).batch = some ⟨f :: rest, called⟩) : f ∈ (s.loop l).pending := by
  simp [ReactorLoop.pending, h]

/-- A new connection is live. -/
theorem Orderly.handleNewConnection (h : s.Orderly) {fd : ℕ} (hopen : ¬ s.Open fd) :
    (s.handleNewConnection fd).Orderly := by
  have hnone : s.connectionsMap fd = none := by
    cases hentry : s.connectionsMap fd with
    | none => rfl
    | some c => exact absurd (h.open_of_entry hentry) hopen
  have hunborn : s.ledger s.made = Phase.unborn.ledger := by
    obtain ⟨p, hp⟩ := h.phase s.made
    have hmade : (s.ledger s.made).made = false := decide_eq_false (lt_irrefl _)
    rw [hp] at hmade ⊢
    cases p <;> first | rfl | exact absurd hmade (by decide)
  -- nothing names the new object yet
  have hentry : ∀ fd, s.connectionsMap fd ≠ some s.made := by
    intro fd' hfd'
    have hfalse := of_decide_eq_false (congrArg Ledger.entry hunborn)
    exact hfalse (by rw [h.entry_fd fd' _ hfd', hfd'])
  have hpending : ∀ l, .connectionDestructor s.made ∉ (s.loop l).pending := by
    intro l hl
    have hzero := congrArg Ledger.destructors hunborn
    apply List.count_eq_zero.mp hzero
    rwa [← h.destructor_own l _ hl]
  have hdetached : ∀ thread, .connectionDestructor thread s.made ∉ s.log := by
    intro thread hmem
    have hzero := List.countP_eq_zero.mp (congrArg Ledger.detachments hunborn)
    exact hzero _ hmem (decide_eq_true rfl)
  obtain ⟨-, hmap, hconn, hpend, -, hlog⟩ := s.handleNewConnection_spec fd
  have hother : ∀ c, c ≠ s.made → (s.handleNewConnection fd).conn c = s.conn c := by
    intro c hc
    rw [hconn, Function.update_of_ne hc]
  refine { entry_fd := ?_, close_main := ?_, destructor_own := ?_, sound := ?_, phase := ?_ }
  · intro fd' c hc
    by_cases hfd : fd' = fd
    · subst hfd
      rw [hmap, Function.update_self] at hc
      obtain rfl := Option.some.inj hc
      rw [hconn, Function.update_self]
    · rw [hmap, Function.update_of_ne hfd] at hc
      rw [hother c (by rintro rfl; exact hentry fd' hc)]
      exact h.entry_fd fd' c hc
  · intro l c hc
    rw [hpend] at hc
    exact h.close_main l c hc
  · intro l c hc
    rw [hpend] at hc
    rw [hother c (by rintro rfl; exact hpending l hc)]
    exact h.destructor_own l c hc
  · rw [hlog]
    exact (h.sound.congr (fun c hc => by rw [hother c hc]) hdetached).snoc hnone
  · intro c
    rw [ledger_handleNewConnection hunborn hpending hnone]
    split
    · exact ⟨.live, rfl⟩
    · exact h.phase c

theorem handleCloseInLoop_ok (hentry : s.connectionsMap (s.conn c).connfd = some c) :
    s.handleCloseInLoop c = .ok (((s.setEntry (s.conn c).connfd none).queueOneFunc (s.conn c).loop
      (.connectionDestructor c)).record (.handleCloseInLoop c c)) := by
  rw [Reactors.handleCloseInLoop, hentry]
  rfl

/-- A closing connection is removed: its own entry is found, and erased. -/
theorem Orderly.handleCloseInLoop (h : s.Orderly) (hc : s.ledger c = Phase.closing.ledger) :
    ∃ t, s.handleCloseInLoop c = .ok t ∧ t.Tidy ∧ t.closing = s.closing ∧
      (∀ l, (t.loop l).batch = (s.loop l).batch) ∧ (∀ c', c' ≠ c → t.ledger c' = s.ledger c') ∧
      t.ledger c = Phase.removed.ledger.owe 1 0 := by
  -- The ledger of a closing connection says that its entry is there, and that it was not removed.
  have hentry : s.connectionsMap (s.conn c).connfd = some c :=
    of_decide_eq_true (congrArg Ledger.entry hc)
  have hfirst : ∀ e, .handleCloseInLoop c e ∉ s.log := by
    intro e hmem
    have hzero := List.countP_eq_zero.mp (congrArg Ledger.removals hc)
    exact hzero _ hmem (decide_eq_true rfl)
  have herased : (s.setEntry (s.conn c).connfd none).Tidy := by
    refine h.toTidy.mono ?_ (fun _ => rfl) (fun _ => rfl) (fun _ _ => id) rfl
    intro fd c' hc'
    by_cases hfd : fd = (s.conn c).connfd
    · simp [setEntry, hfd] at hc'
    · simpa [setEntry, hfd] using hc'
  have hledger : ∀ c', (((s.setEntry (s.conn c).connfd none).queueOneFunc (s.conn c).loop
      (.connectionDestructor c)).record (.handleCloseInLoop c c)).ledger c' =
      if c' = c then Phase.removed.ledger.owe 1 0 else s.ledger c' := by
    intro c'
    have hqueue : ((s.setEntry (s.conn c).connfd none).queueOneFunc (s.conn c).loop
        (.connectionDestructor c)).ledger c' =
        ((s.setEntry (s.conn c).connfd none).ledger c').owe 0 (if c = c' then 1 else 0) :=
      ledger_queue_connectionDestructor (s := s.setEntry (s.conn c).connfd none) c c'
    rw [ledger_record, hqueue, ledger_eraseEntry hentry]
    by_cases hcc : c' = c
    · subst hcc
      rw [hc, if_pos rfl, if_pos rfl]
      simp [Phase.ledger, Ledger.owe, ServerCall.removes, ServerCall.detaches]
    · rw [if_neg hcc, if_neg (Ne.symm hcc)]
      simp [ServerCall.removes, ServerCall.detaches, Ne.symm hcc]
  refine ⟨_, handleCloseInLoop_ok hentry, ?_, rfl, ?_, ?_, ?_⟩
  · refine Tidy.record (herased.queueOneFunc ?_ ?_) (.handleCloseInLoop c c) ⟨rfl, hfirst⟩
    · rintro c' ⟨⟩
    · rintro c' ⟨⟩
      rfl
  · intro l
    by_cases hl : l = (s.conn c).loop
    · subst hl
      simp [record, Reactors.queueOneFunc, setLoop, setEntry]
    · simp [record, Reactors.queueOneFunc, setLoop, setEntry, hl]
  · intro c' hne
    rw [hledger, if_neg hne]
  · rw [hledger, if_pos rfl]

/-- A removed connection is detached on its own loop. -/
theorem Orderly.connectionDestructor (h : s.Orderly) (hc : s.ledger c = Phase.removed.ledger) :
    ∃ t, s.connectionDestructor (s.conn c).loop c = t ∧ t.Tidy ∧
      (t.conn c).loop = (s.conn c).loop ∧ (∀ l, (t.loop l).batch = (s.loop l).batch) ∧
      (∀ c', c' ≠ c → t.ledger c' = s.ledger c') ∧
      t.ledger c = Phase.detached.ledger.owe 0 1 := by
  have hdelete : (s.deleteChannel c).Tidy := h.toTidy.setLoop fun _ => id
  refine ⟨_, rfl, ?_, rfl, ?_, ?_, ?_⟩
  · exact hdelete.record (.connectionDestructor (s.conn c).loop c) rfl
  · intro l
    by_cases hl : l = (s.conn c).loop
    · subst hl
      simp [Reactors.connectionDestructor, record, deleteChannel, setLoop]
    · simp [Reactors.connectionDestructor, record, deleteChannel, setLoop, hl]
  · intro c' hne
    rw [Reactors.connectionDestructor, ledger_record, ledger_deleteChannel]
    simp [ServerCall.removes, ServerCall.detaches, Ne.symm hne]
  · rw [Reactors.connectionDestructor, ledger_record, ledger_deleteChannel, hc]
    simp [Phase.ledger, Ledger.owe, ServerCall.removes, ServerCall.detaches]

/-- **What was due is done**: `t` has brought the connection `c` to the phase `p`, and `u` is `t`
without the functor that did. -/
theorem Orderly.of_paid {t u : Reactors} {p : Phase} {closes destructors : ℕ} (h : s.Orderly)
    (htidy : u.Tidy) (hother : ∀ c', c' ≠ c → t.ledger c' = s.ledger c')
    (hself : t.ledger c = p.ledger.owe closes destructors)
    (hpaid : t.ledger c = (u.ledger c).owe closes destructors)
    (hkept : ∀ c', c' ≠ c → t.ledger c' = u.ledger c') : u.Orderly := by
  refine { toTidy := htidy, phase := ?_ }
  intro c'
  by_cases hcc : c' = c
  · subst hcc
    exact ⟨p, Ledger.owe_injective (hpaid.symm.trans hself)⟩
  · rw [← hkept c' hcc, hother c' hcc]
    exact h.phase c'

/-- A thread that goes on with `on_close_` removes the connection, or queues its removal. -/
theorem Orderly.onClose (h : s.Orderly) {thread : LoopId} (hc : (thread, c) ∈ s.closing) :
    ∃ t, s.onClose thread c = .ok t ∧ t.Orderly := by
  have hclosing : s.ledger c = Phase.closing.ledger := by
    refine h.closing_of_closes (Nat.add_pos_left ?_ _)
    exact List.countP_pos_iff.mpr ⟨_, hc, decide_eq_true rfl⟩
  rw [Reactors.onClose, runOneFunc]
  -- `RunOneFunc` calls the functor at once on the main reactor, and queues it from another thread.
  by_cases hmain : thread = .main
  · obtain ⟨t, hrun, htidy, hclose, -, hother, hself⟩ := h.handleCloseInLoop hclosing
    rw [if_pos hmain, callFunctor, hrun, ok_bind]
    have hleave := ledger_leaveClose (s := t) (hclose.symm ▸ hc)
    refine ⟨_, rfl, h.of_paid ?_ hother hself ?_ ?_⟩
    · exact htidy.mono (fun _ _ => id) (fun _ => rfl) (fun _ => rfl) (fun _ _ => id) rfl
    · rw [hleave c, if_pos rfl]
    · intro c' hcc
      rw [hleave c', if_neg (Ne.symm hcc), Ledger.owe_zero]
  · rw [if_neg hmain, ok_bind]
    refine ⟨_, rfl, { toTidy := ?_, phase := ?_ }⟩
    · have hqueue : (s.queueOneFunc .main (.handleCloseInLoop c)).Tidy := by
        refine h.toTidy.queueOneFunc (fun _ _ => rfl) ?_
        rintro c' ⟨⟩
      exact hqueue.mono (fun _ _ => id) (fun _ => rfl) (fun _ => rfl) (fun _ _ => id) rfl
    · intro c'
      have hledger := ledger_leaveClose (s := s.queueOneFunc .main (.handleCloseInLoop c)) hc c'
      rw [ledger_queue_handleCloseInLoop] at hledger
      rw [← Ledger.owe_injective hledger]
      exact h.phase c'

/-- `HandleClose` begins to close a live connection. -/
theorem Orderly.handleClose (h : s.Orderly) {thread : LoopId} (hmade : c < s.made) :
    (s.handleClose thread c).Orderly := by
  by_cases hstate : (s.conn c).state = .disconected
  · rw [Reactors.handleClose, if_neg (not_not.mpr hstate)]
    exact h
  · have hlive := h.live_of_state hmade hstate
    refine { toTidy := ?_, phase := ?_ }
    · rw [Reactors.handleClose, if_pos hstate]
      refine Tidy.mono (h.toTidy.setConn (c := c) (x := { s.conn c with state := .disconected }) rfl
        rfl) (fun _ _ => id) (fun _ => rfl) (fun _ => rfl) (fun _ _ => id) rfl
    · intro c'
      rw [ledger_handleClose hstate]
      split
      · rw [hlive]
        exact ⟨.closing, rfl⟩
      · exact h.phase c'

/-- A functor of a batch removes or detaches its connection. -/
theorem Orderly.callNext (h : s.Orderly) {l : LoopId} {f : CloseFunctor}
    {rest called : List CloseFunctor} (hbatch : (s.loop l).batch = some ⟨f :: rest, called⟩) :
    ∃ t, s.callNext l = .ok t ∧ t.Orderly := by
  have hf := mem_pending_of_batch hbatch
  unfold Reactors.callNext
  rw [hbatch]
  cases f with
  | handleCloseInLoop c =>
    -- the removal is owed to a connection that is closing, in the main loop
    obtain rfl := h.close_main l c hf
    have hclosing : s.ledger c = Phase.closing.ledger :=
      h.closing_of_closes (Nat.add_pos_right _ (List.count_pos_iff.mpr hf))
    obtain ⟨t, hrun, htidy, -, hkept, hother, hself⟩ := h.handleCloseInLoop hclosing
    simp only [callFunctor, hrun, ok_bind]
    have hadvance := ledger_advance ((hkept .main).trans hbatch) (called ++ [.handleCloseInLoop c])
    refine ⟨_, rfl, h.of_paid (htidy.advance ((hkept .main).trans hbatch)) hother hself ?_ ?_⟩
    · rw [hadvance c]
      simp
    · intro c' hcc
      rw [hadvance c']
      simp [Ne.symm hcc]
  | connectionDestructor c =>
    -- the detachment is owed to one that was removed, in its own loop
    obtain rfl := h.destructor_own l c hf
    have hremoved : s.ledger c = Phase.removed.ledger :=
      h.removed_of_destructors (List.count_pos_iff.mpr hf)
    obtain ⟨t, hrun, htidy, hown, hkept, hother, hself⟩ := h.connectionDestructor hremoved
    simp only [callFunctor, hrun, ok_bind]
    have hadvance := ledger_advance ((hkept _).trans hbatch) (called ++ [.connectionDestructor c])
    refine ⟨_, rfl, h.of_paid (htidy.advance ((hkept _).trans hbatch)) hother hself ?_ ?_⟩
    · rw [hadvance c]
      simp [hown]
    · intro c' hcc
      rw [hadvance c']
      simp [Ne.symm hcc]

/-- A connection that nothing refers to has been detached, and is closed. -/
theorem Orderly.destroy (h : s.Orderly) (hmade : c < s.made)
    (hclosed : (s.conn c).closed = false) (hunreferenced : ¬ s.Referenced c) :
    (s.destroy c).Orderly := by
  have hdetached := h.detached_of_unreferenced hmade hclosed hunreferenced
  have hledger : ∀ c', (s.destroy c).ledger c' =
      if c' = c then Phase.closed.ledger else s.ledger c' := by
    intro c'
    rw [Reactors.destroy, ledger_record]
    by_cases hcc : c' = c
    · subst hcc
      have hset : (s.setConn c' { s.conn c' with closed := true }).ledger c' =
          { s.ledger c' with closed := true } := by
        ext <;> first | rfl | simp [ledger, setConn]
      rw [if_pos rfl, hset, hdetached]
      rfl
    · have hset : (s.setConn c { s.conn c with closed := true }).ledger c' = s.ledger c' := by
        ext <;> first | rfl | simp [ledger, setConn, hcc]
      rw [if_neg hcc, hset]
      rfl
  -- the one detachment was on its own loop
  have hown : .connectionDestructor (s.conn c).loop c ∈ s.log := by
    have hpos : 0 < s.log.countP (ServerCall.detaches c) := by
      rw [show s.log.countP (ServerCall.detaches c) = 1 from
        congrArg Ledger.detachments hdetached]
      exact Nat.one_pos
    obtain ⟨call, hmem, hcall⟩ := List.countP_pos_iff.mp hpos
    cases call with
    | connectionDestructor thread c' =>
      obtain rfl : c' = c := of_decide_eq_true hcall
      rwa [← h.sound.own_of_mem hmem]
    | handleNewConnection _ _ | handleCloseInLoop _ _ | close _ => cases hcall
  refine { toTidy := ?_, phase := ?_ }
  · have hset : (s.setConn c { s.conn c with closed := true }).Tidy := h.toTidy.setConn rfl rfl
    refine hset.record (.close c) ?_
    simpa [ServerCall.Sound, setConn] using hown
  · intro c'
    rw [hledger]
    split
    · exact ⟨.closed, rfl⟩
    · exact h.phase c'

/-- A change of a loop that keeps its functors. -/
theorem Orderly.setLoop (h : s.Orderly) {l : LoopId} {x : ReactorLoop}
    (hx : x.pending = (s.loop l).pending) : (s.setLoop l x).Orderly where
  toTidy := h.toTidy.setLoop fun f hf => hx ▸ hf
  phase c := by
    rw [ledger_setLoop hx]
    exact h.phase c

/-- A change of the number of holders of a connection. -/
theorem Orderly.setHolders (h : s.Orderly) (c n : ℕ) :
    (s.setConn c { s.conn c with holders := n }).Orderly where
  toTidy := h.toTidy.setConn rfl rfl
  phase c' := by
    have hledger :=
      ledger_setConn (s := s) (c := c) (x := { s.conn c with holders := n }) rfl rfl rfl rfl c'
    rw [hledger]
    exact h.phase c'

/-- **One step** of any thread keeps the invariant, and its assertion does not fail. -/
theorem Orderly.act (h : s.Orderly) {a : ReactorAction} (ha : s.Enabled a) :
    ∃ t, s.act a = .ok t ∧ t.Orderly := by
  cases a with
  | accept fd => exact ⟨_, rfl, h.handleNewConnection ha.1⟩
  | acquire c => exact ⟨_, rfl, h.setHolders c _⟩
  | release c => exact ⟨_, rfl, h.setHolders c _⟩
  | updateChannel c => exact ⟨_, rfl, h.setLoop rfl⟩
  | handleClose thread c => exact ⟨_, rfl, h.handleClose ha.1⟩
  | onClose thread c => exact h.onClose ha
  | swapToDoList l =>
    refine ⟨_, rfl, h.setLoop ?_⟩
    simp [ReactorLoop.pending, ha.2]
  | callNext l =>
    obtain ⟨-, f, rest, called, hbatch⟩ := ha
    exact h.callNext hbatch
  | endToDoList l =>
    obtain ⟨-, called, hbatch⟩ := ha
    refine ⟨_, rfl, h.setLoop ?_⟩
    simp [ReactorLoop.pending, hbatch]
  | destroy c => exact ⟨_, rfl, h.destroy ha.1 ha.2.1 ha.2.2⟩

end Step

/-- A server that has made no connection is orderly. -/
theorem orderly_init (threadNums : ℕ) : Orderly { threadNums := threadNums } where
  entry_fd := by
    rintro fd c ⟨⟩
  close_main := by
    rintro l c ⟨⟩
  destructor_own := by
    rintro l c ⟨⟩
  sound := by
    intro before call later hsplit
    simp at hsplit
  phase c := ⟨.unborn, rfl⟩

end Reactors

/-! ## All interleavings -/

theorem orderly_of_run {threadNums : ℕ} {actions : List ReactorAction} {s : Reactors}
    (hrun : (reactorSystem threadNums).Run actions s) : s.Orderly := by
  apply hrun.invariant
  · rintro s rfl
    exact Reactors.orderly_init threadNums
  · rintro s a t horderly ⟨henabled, hact⟩
    obtain ⟨t', hact', horderly'⟩ := horderly.act henabled
    obtain rfl := Except.ok.inj (hact'.symm.trans hact)
    exact horderly'

/-- **In every interleaving**, with any number of sub-reactors, the calls so far are sound: no new
connection replaces an entry, each connection is removed at most once and erases its own entry, and
its descriptor is closed only after it was detached on its own loop. And whatever step comes next,
the assertion of `HandleCloseInLoop` does not fail. -/
theorem reactorSystem_sound {threadNums : ℕ} {actions : List ReactorAction} {s : Reactors}
    (hrun : (reactorSystem threadNums).Run actions s) :
    SoundLog (fun c => (s.conn c).loop) s.log ∧ ∀ a, s.Enabled a → ∃ t, s.act a = .ok t := by
  have horderly := orderly_of_run hrun
  refine ⟨horderly.sound, fun a ha => ?_⟩
  obtain ⟨t, hact, -⟩ := horderly.act ha
  exact ⟨t, hact⟩

/-- A connection that a sub-reactor closes, and whose descriptor is accepted again. -/
def reaccepting : List ReactorAction :=
  [.accept 7, .handleClose (.sub 0) 0, .onClose (.sub 0) 0, .swapToDoList .main, .callNext .main,
    .endToDoList .main, .swapToDoList (.sub 0), .callNext (.sub 0), .endToDoList (.sub 0),
    .destroy 0, .accept 7]

/-- The run up to the end of the batch of the sub-reactor: nothing refers to the connection. -/
theorem run_closed : ∃ s, (reactorSystem 1).Run (reaccepting.take 9) s ∧ s.made = 1 ∧
    (s.conn 0).closed = false ∧ (s.conn 0).connfd = 7 ∧ (s.loop .main).batch = none ∧
    s.closing = [] ∧ s.connectionsMap 7 = none ∧ ¬ s.Referenced 0 ∧
    s.log = [.handleNewConnection 0 none, .handleCloseInLoop 0 0,
      .connectionDestructor (.sub 0) 0] := by
  have haccept : (reactorSystem 1).Run (reaccepting.take 1) _ :=
    LTS.Run.snoc (.nil rfl)
      ⟨⟨fun ⟨c, hc, _⟩ => absurd hc (Nat.not_lt_zero c), fun _ => List.not_mem_nil, rfl⟩, rfl⟩
  have hclose : (reactorSystem 1).Run (reaccepting.take 2) _ :=
    haccept.snoc ⟨⟨by decide, fun _ => List.not_mem_nil⟩, rfl⟩
  have honClose : (reactorSystem 1).Run (reaccepting.take 3) _ :=
    hclose.snoc ⟨List.mem_cons_self, rfl⟩
  have hswap : (reactorSystem 1).Run (reaccepting.take 4) _ :=
    honClose.snoc ⟨⟨fun _ => List.not_mem_nil, rfl⟩, rfl⟩
  have hcall : (reactorSystem 1).Run (reaccepting.take 5) _ :=
    hswap.snoc ⟨⟨fun _ => List.not_mem_nil, _, _, _, rfl⟩, rfl⟩
  have hend : (reactorSystem 1).Run (reaccepting.take 6) _ :=
    hcall.snoc ⟨⟨fun _ => List.not_mem_nil, _, rfl⟩, rfl⟩
  have hswap' : (reactorSystem 1).Run (reaccepting.take 7) _ :=
    hend.snoc ⟨⟨fun _ => List.not_mem_nil, rfl⟩, rfl⟩
  have hcall' : (reactorSystem 1).Run (reaccepting.take 8) _ :=
    hswap'.snoc ⟨⟨fun _ => List.not_mem_nil, _, _, _, rfl⟩, rfl⟩
  have hend' : (reactorSystem 1).Run (reaccepting.take 9) _ :=
    hcall'.snoc ⟨⟨fun _ => List.not_mem_nil, _, rfl⟩, rfl⟩
  refine ⟨_, hend', rfl, rfl, rfl, rfl, rfl, rfl, ?_, rfl⟩
  rintro (h | ⟨fd, h⟩ | ⟨thread, h⟩ | ⟨l, f, h, -⟩)
  · exact absurd h (by decide)
  · change Function.update (Function.update (fun _ => none) 7 (some 0)) 7 none fd = some 0 at h
    rw [Function.update_idem] at h
    by_cases hfd : fd = 7
    · subst hfd
      cases h
    · rw [Function.update_of_ne hfd] at h
      cases h
  · cases h
  · rcases l with _ | i
    · cases h
    · rcases i with _ | i <;> cases h

theorem run_reaccepting : ∃ s, (reactorSystem 1).Run reaccepting s ∧
    s.log = [.handleNewConnection 0 none, .handleCloseInLoop 0 0,
      .connectionDestructor (.sub 0) 0, .close 0, .handleNewConnection 1 none] := by
  obtain ⟨s, hrun, hmade, hopen, hconnfd, hbatch, hclosing, hentry, hnone, hlog⟩ := run_closed
  have hdestroy : (reactorSystem 1).Run (reaccepting.take 10) (s.destroy 0) :=
    hrun.snoc ⟨⟨by omega, hopen, hnone⟩, rfl⟩
  have hclosed : ((s.destroy 0).conn 0).closed = true := by
    simp [Reactors.destroy, Reactors.record, Reactors.setConn]
  have hagain : (reactorSystem 1).Run reaccepting ((s.destroy 0).handleNewConnection 7) := by
    refine hdestroy.snoc ⟨⟨?_, fun c hc => ?_, hbatch⟩, rfl⟩
    · -- the only connection is closed
      rintro ⟨c, hc, hfalse, -⟩
      obtain rfl : c = 0 := by
        have hlt : c < s.made := hc
        omega
      rw [hclosed] at hfalse
      cases hfalse
    · have hmem : (LoopId.main, c) ∈ s.closing := hc
      rw [hclosing] at hmem
      cases hmem
  refine ⟨_, hagain, ?_⟩
  rw [((s.destroy 0).handleNewConnection_spec 7).2.2.2.2.2]
  change s.log ++ [.close 0] ++ [.handleNewConnection s.made (s.connectionsMap 7)] = _
  rw [hlog, hmade, hentry]
  rfl
/-- A sub-reactor destroys a connection, and its descriptor is accepted again. -/
theorem reactorSystem_sound_removed : ∃ s, (reactorSystem 1).Run reaccepting s ∧
    s.log = [.handleNewConnection 0 none, .handleCloseInLoop 0 0,
      .connectionDestructor (.sub 0) 0, .close 0, .handleNewConnection 1 none] ∧
    SoundLog (fun c => (s.conn c).loop) s.log := by
  obtain ⟨s, hrun, hlog⟩ := run_reaccepting
  exact ⟨s, hrun, hlog, (reactorSystem_sound hrun).1⟩

end CppServerStudio
