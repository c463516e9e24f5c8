import CppServerStudio.NetWork.Lifecycle

/-!
# A connection that was seen closed can be taken down

A connection on which `HandleClose` was called waits for nothing but its functors: from every state
that the threads of a server can reach, they can go on, without another connection or event, until
its descriptor is closed.

## Main definitions

* `Reactors.Housed`: functors wait on the loop they are meant for
* `Reactors.Doomed`: a connection that was seen closed
* `ReactorAction.TakesDown`: the steps that take a connection down

## Main results

* `Reactors.Doomed.act`: a connection that was seen closed stays so
* `Reactors.Doomed.canReach_closed`: its descriptor can be closed
-/

namespace CppServerStudio

open Scanning

namespace Reactors

variable {s t : Reactors} {c : ℕ}

/-! ## What the steps do to the functors -/

/-- The loop a functor is meant for. -/
def home (s : Reactors) : CloseFunctor → LoopId
  | .handleCloseInLoop _ => .main
  | .connectionDestructor c => (s.conn c).loop

/-- What the call of a functor queues on a loop. -/
def queued (s : Reactors) : CloseFunctor → LoopId → List CloseFunctor
  | .handleCloseInLoop c, l => if l = (s.conn c).loop then [.connectionDestructor c] else []
  | .connectionDestructor _, _ => []

theorem loop_queueOneFunc (l l' : LoopId) (f : CloseFunctor) :
    ((s.queueOneFunc l f).loop l').toDoList = (s.loop l').toDoList ++ (if l' = l then [f] else []) ∧
    ((s.queueOneFunc l f).loop l').batch = (s.loop l').batch := by
  unfold queueOneFunc setLoop
  by_cases h : l' = l
  · subst h
    simp
  · simp [h]

/-- The call of a functor leaves everything about a connection but its entry and its channel. -/
theorem callFunctor_spec {thread : LoopId} {f : CloseFunctor}
    (h : s.callFunctor thread f = .ok t) :
    t.conn = s.conn ∧ t.made = s.made ∧ t.closing = s.closing ∧
    ∀ l, (t.loop l).batch = (s.loop l).batch ∧
      (t.loop l).toDoList = (s.loop l).toDoList ++ s.queued f l := by
  cases f with
  | handleCloseInLoop c =>
    simp only [callFunctor, handleCloseInLoop] at h
    split at h
    · cases h
    · obtain rfl := Except.ok.inj h
      refine ⟨rfl, rfl, rfl, fun l => ?_⟩
      obtain ⟨htodo, hbatch⟩ := loop_queueOneFunc (s := s.setEntry (s.conn c).connfd none)
        (s.conn c).loop l (.connectionDestructor c)
      exact ⟨hbatch, htodo⟩
  | connectionDestructor c =>
    obtain rfl := Except.ok.inj h
    refine ⟨rfl, rfl, rfl, fun l => ?_⟩
    by_cases hl : l = (s.conn c).loop
    · subst hl
      simp [connectionDestructor, record, deleteChannel, setLoop, queued]
    · simp [connectionDestructor, record, deleteChannel, setLoop, queued, hl]

/-- One turn of `DoToDoList`. -/
theorem callNext_spec {l : LoopId} {f : CloseFunctor} {rest called : List CloseFunctor}
    (hbatch : (s.loop l).batch = some ⟨f :: rest, called⟩) (h : s.callNext l = .ok t) :
    t.conn = s.conn ∧ t.made = s.made ∧ t.closing = s.closing ∧
    ∀ l', (t.loop l').toDoList = (s.loop l').toDoList ++ s.queued f l' ∧
      (t.loop l').batch = if l' = l then some ⟨rest, called ++ [f]⟩ else (s.loop l').batch := by
  simp only [callNext, hbatch] at h
  obtain ⟨u, hcall, hu⟩ := bind_eq_ok.mp h
  obtain rfl := Except.ok.inj hu
  obtain ⟨hconn, hmade, hclosing, hloop⟩ := callFunctor_spec hcall
  refine ⟨hconn, hmade, hclosing, fun l' => ?_⟩
  obtain ⟨hkept, htodo⟩ := hloop l'
  by_cases hl : l' = l
  · subst hl
    simp [setLoop, htodo]
  · simp [setLoop, hl, htodo, hkept]

/-- A thread goes on with `on_close_`. -/
theorem onClose_spec {thread : LoopId} (h : s.onClose thread c = .ok t) :
    t.conn = s.conn ∧ t.made = s.made ∧ t.closing = s.closing.erase (thread, c) ∧
    ∀ l, (t.loop l).batch = (s.loop l).batch ∧
      ((t.loop l).toDoList = (s.loop l).toDoList ++ s.queued (.handleCloseInLoop c) l ∨
        (t.loop l).toDoList = (s.loop l).toDoList ++
          if l = .main then [.handleCloseInLoop c] else []) := by
  obtain ⟨u, hrun, hu⟩ := bind_eq_ok.mp h
  obtain rfl := Except.ok.inj hu
  rw [runOneFunc] at hrun
  split at hrun
  · obtain ⟨hconn, hmade, hclosing, hloop⟩ := callFunctor_spec hrun
    refine ⟨hconn, hmade, ?_, fun l => ⟨(hloop l).1, Or.inl (hloop l).2⟩⟩
    rw [leaveClose, hclosing]
  · obtain rfl := Except.ok.inj hrun
    refine ⟨rfl, rfl, rfl, fun l => ?_⟩
    obtain ⟨htodo, hbatch⟩ := loop_queueOneFunc (s := s) .main l (.handleCloseInLoop c)
    exact ⟨hbatch, Or.inr htodo⟩

/-! ## What is kept -/

/-- Functors wait on the loop they are meant for, and name connections that exist. -/
def Housed (s : Reactors) : Prop :=
  ∀ l, ∀ f ∈ (s.loop l).holding, l = s.home f ∧ f.conn < s.made

theorem mem_holding {l : LoopId} {f : CloseFunctor} :
    f ∈ (s.loop l).holding ↔ f ∈ (s.loop l).toDoList ∨
      ∃ batch, (s.loop l).batch = some batch ∧ (f ∈ batch.called ∨ f ∈ batch.rest) := by
  unfold ReactorLoop.holding
  cases (s.loop l).batch with
  | none => simp
  | some batch =>
    simp only [List.mem_append, Option.some.injEq, exists_eq_left']
    tauto

theorem mem_queued {f g : CloseFunctor} {l : LoopId} (h : g ∈ s.queued f l) :
    g = .connectionDestructor f.conn ∧ l = (s.conn f.conn).loop := by
  cases f with
  | handleCloseInLoop c =>
    rw [queued] at h
    split at h
    · rename_i hl
      exact ⟨List.mem_singleton.mp h, hl⟩
    · cases h
  | connectionDestructor c => cases h

/-- A change of a loop that keeps what its functors hold. -/
theorem holding_setLoop {l : LoopId} {x : ReactorLoop} (h : x.holding = (s.loop l).holding)
    (l' : LoopId) : ((s.setLoop l x).loop l').holding = (s.loop l').holding := by
  unfold setLoop
  by_cases hl : l' = l
  · subst hl
    simpa using h
  · simp [hl]

theorem holding_updateChannel (c : ℕ) (l : LoopId) :
    ((s.updateChannel c).loop l).holding = (s.loop l).holding :=
  holding_setLoop (x := { s.loop (s.conn c).loop with
    channels := (s.loop (s.conn c).loop).channels.insert c }) rfl l

theorem holding_handleNewConnection (fd : ℕ) (l : LoopId) :
    ((s.handleNewConnection fd).loop l).holding = (s.loop l).holding := by
  obtain ⟨n, hn⟩ := s.nextloop_eq
  unfold handleNewConnection
  rw [hn]
  exact (holding_updateChannel _ l).trans (holding_updateChannel _ l)

/-- `on_close_` queues a removal on the main reactor, or removes the connection itself and queues
its detachment. -/
theorem mem_holding_onClose {thread l : LoopId} {f : CloseFunctor}
    (hact : s.onClose thread c = .ok t) (hf : f ∈ (t.loop l).holding) :
    f ∈ (s.loop l).holding ∨
      (f = .connectionDestructor c ∧ l = (s.conn c).loop) ∨
      (f = .handleCloseInLoop c ∧ l = .main) := by
  obtain ⟨-, -, -, hloop⟩ := onClose_spec hact
  obtain ⟨hbatch, htodo⟩ := hloop l
  rw [mem_holding, hbatch] at hf
  rcases hf with hf | hf
  · rcases htodo with htodo | htodo
    · rw [htodo, List.mem_append] at hf
      rcases hf with hf | hf
      · exact .inl (mem_holding.mpr (.inl hf))
      · exact .inr (.inl (mem_queued hf))
    · rw [htodo, List.mem_append] at hf
      rcases hf with hf | hf
      · exact .inl (mem_holding.mpr (.inl hf))
      · split at hf
        · rename_i hl
          exact .inr (.inr ⟨List.mem_singleton.mp hf, hl⟩)
        · cases hf
  · exact .inl (mem_holding.mpr (.inr hf))

theorem mem_holding_swapToDoList {l l' : LoopId} {f : CloseFunctor}
    (hbatch : (s.loop l').batch = none) (hf : f ∈ ((s.swapToDoList l').loop l).holding) :
    f ∈ (s.loop l).holding := by
  by_cases hl : l = l'
  · subst hl
    simpa [swapToDoList, setLoop, ReactorLoop.holding, hbatch] using hf
  · simpa [swapToDoList, setLoop, hl] using hf

/-- Only the functor that is called can queue another one. -/
theorem mem_holding_callNext {l l' : LoopId} {f g : CloseFunctor} {rest called : List CloseFunctor}
    (hbatch : (s.loop l').batch = some ⟨g :: rest, called⟩) (hact : s.callNext l' = .ok t)
    (hf : f ∈ (t.loop l).holding) : f ∈ (s.loop l).holding ∨ f ∈ s.queued g l := by
  obtain ⟨-, -, -, hloop⟩ := callNext_spec hbatch hact
  obtain ⟨htodo, hbatch'⟩ := hloop l
  rw [mem_holding, htodo, hbatch', List.mem_append] at hf
  rcases hf with (hf | hf) | hf
  · exact .inl (mem_holding.mpr (.inl hf))
  · exact .inr hf
  · refine .inl (mem_holding.mpr (.inr ?_))
    split at hf
    · rename_i hl
      subst hl
      obtain ⟨batch, hsome, hmem⟩ := hf
      obtain rfl := Option.some.inj hsome
      refine ⟨_, hbatch, ?_⟩
      simp only [List.mem_append, List.mem_cons, List.not_mem_nil, or_false] at hmem ⊢
      tauto
    · exact hf

theorem mem_holding_endToDoList {l l' : LoopId} {f : CloseFunctor}
    (hf : f ∈ ((s.endToDoList l').loop l).holding) : f ∈ (s.loop l).holding := by
  by_cases hl : l = l'
  · subst hl
    have htodo : f ∈ (s.loop l).toDoList := by
      simpa [endToDoList, setLoop, ReactorLoop.holding] using hf
    exact mem_holding.mpr (.inl htodo)
  · simpa [endToDoList, setLoop, hl] using hf

/-- **What a step adds to the functors**: a detachment for the connection's own loop, or a removal
for the main reactor, by a thread inside `HandleClose`. -/
theorem mem_holding_act {a : ReactorAction} (horderly : s.Orderly) (hhoused : s.Housed)
    (ha : s.Enabled a) (hact : s.act a = .ok t) {l : LoopId} {f : CloseFunctor}
    (hf : f ∈ (t.loop l).holding) :
    f ∈ (s.loop l).holding ∨ l = s.home f ∧ f.conn < s.made ∧
      ∀ c, f = .handleCloseInLoop c → ∃ thread, (thread, c) ∈ s.closing := by
  cases a with
  | accept fd =>
    obtain rfl := Except.ok.inj hact
    rw [holding_handleNewConnection] at hf
    exact .inl hf
  | acquire c | release c | destroy c =>
    obtain rfl := Except.ok.inj hact
    exact .inl hf
  | updateChannel c =>
    obtain rfl := Except.ok.inj hact
    rw [holding_updateChannel] at hf
    exact .inl hf
  | handleClose thread c =>
    obtain rfl := Except.ok.inj hact
    unfold handleClose at hf
    split at hf <;> exact .inl hf
  | onClose thread c =>
    have hclosing : s.ledger c = Phase.closing.ledger := by
      refine horderly.closing_of_closes (Nat.add_pos_left ?_ _)
      exact List.countP_pos_iff.mpr ⟨_, ha, decide_eq_true rfl⟩
    have hmade : c < s.made := of_decide_eq_true (congrArg Ledger.made hclosing)
    refine (mem_holding_onClose hact hf).imp_right ?_
    rintro (⟨rfl, rfl⟩ | ⟨rfl, rfl⟩)
    · exact ⟨rfl, hmade, by rintro _ ⟨⟩⟩
    · refine ⟨rfl, hmade, ?_⟩
      rintro _ ⟨⟩
      exact ⟨thread, ha⟩
  | swapToDoList l' =>
    obtain rfl := Except.ok.inj hact
    exact .inl (mem_holding_swapToDoList ha.2 hf)
  | callNext l' =>
    obtain ⟨-, g, rest, called, hbatch⟩ := ha
    have hg : g ∈ (s.loop l').holding := mem_holding.mpr (.inr ⟨_, hbatch, by simp⟩)
    refine (mem_holding_callNext hbatch hact hf).imp_right fun hqueued => ?_
    obtain ⟨rfl, rfl⟩ := mem_queued hqueued
    exact ⟨rfl, (hhoused l' g hg).2, by rintro _ ⟨⟩⟩
  | endToDoList l' =>
    obtain rfl := Except.ok.inj hact
    exact .inl (mem_holding_endToDoList hf)

/-- What a step keeps of a connection that exists. -/
theorem conn_act {a : ReactorAction} (hact : s.act a = .ok t) (ha : s.Enabled a)
    (hmade : c < s.made) :
    c < t.made ∧ (t.conn c).loop = (s.conn c).loop ∧
    ((s.conn c).state = .disconected → (t.conn c).state = .disconected) := by
  -- no step moves a connection to another loop, or leads back from `disconected`
  have hset : ∀ x c' (u : Reactors), (x.loop = (u.conn c').loop) →
      (x.state = (u.conn c').state ∨ x.state = .disconected) →
      ((u.setConn c' x).conn c).loop = (u.conn c).loop ∧
        ((u.conn c).state = .disconected → ((u.setConn c' x).conn c).state = .disconected) := by
    intro x c' u hloop hstate
    by_cases hc : c = c'
    · subst hc
      rw [setConn]
      simp only [Function.update_self]
      refine ⟨hloop, fun hd => ?_⟩
      rcases hstate with hstate | hstate
      · rw [hstate, hd]
      · exact hstate
    · simp [setConn, hc]
  cases a with
  | accept fd =>
    obtain rfl := Except.ok.inj hact
    obtain ⟨hmade', -, hconn, -⟩ := s.handleNewConnection_spec fd
    rw [hmade', hconn, Function.update_of_ne (by omega)]
    exact ⟨by omega, rfl, id⟩
  | acquire c' | release c' | destroy c' =>
    obtain rfl := Except.ok.inj hact
    exact ⟨hmade, hset _ c' s rfl (Or.inl rfl)⟩
  | updateChannel c' | swapToDoList l | endToDoList l =>
    obtain rfl := Except.ok.inj hact
    exact ⟨hmade, rfl, id⟩
  | handleClose thread c' =>
    obtain rfl := Except.ok.inj hact
    unfold handleClose
    split
    · exact ⟨hmade, hset _ c' s rfl (Or.inr rfl)⟩
    · exact ⟨hmade, rfl, id⟩
  | onClose thread c' =>
    obtain ⟨hconn, hmade', -⟩ := onClose_spec hact
    rw [hconn, hmade']
    exact ⟨hmade, rfl, id⟩
  | callNext l =>
    obtain ⟨-, f, rest, called, hbatch⟩ := ha
    obtain ⟨hconn, hmade', -⟩ := callNext_spec hbatch hact
    rw [hconn, hmade']
    exact ⟨hmade, rfl, id⟩

theorem Housed.act {a : ReactorAction} (h : s.Housed) (horderly : s.Orderly) (ha : s.Enabled a)
    (hact : s.act a = .ok t) : t.Housed := by
  intro l f hf
  have hold : l = s.home f ∧ f.conn < s.made := by
    rcases mem_holding_act horderly h ha hact hf with hf | ⟨hl, hmade, -⟩
    · exact h l f hf
    · exact ⟨hl, hmade⟩
  obtain ⟨rfl, hmade⟩ := hold
  obtain ⟨hmade', hloop, -⟩ := conn_act hact ha hmade
  refine ⟨?_, hmade'⟩
  cases f with
  | handleCloseInLoop c => rfl
  | connectionDestructor c => exact hloop.symm

/-- A connection on the loop `own` that was seen closed. -/
structure Doomed (s : Reactors) (c : ℕ) (own : LoopId) : Prop where
  orderly : s.Orderly
  housed : s.Housed
  made : c < s.made
  state : (s.conn c).state = .disconected
  own_loop : (s.conn c).loop = own

variable {own : LoopId}

/-- **A connection that was seen closed** stays so, and the next step succeeds. -/
theorem Doomed.act {a : ReactorAction} (h : s.Doomed c own) (ha : s.Enabled a) :
    ∃ t, s.act a = .ok t ∧ t.Doomed c own := by
  obtain ⟨t, hact, horderly⟩ := h.orderly.act ha
  obtain ⟨hmade, hloop, hstate⟩ := conn_act hact ha h.made
  exact ⟨t, hact, horderly, h.housed.act h.orderly ha hact, hmade, hstate h.state,
    hloop.trans h.own_loop⟩

end Reactors

/-! ## The way to the end -/

/-- The steps that take a connection down, on the main reactor and on its own loop. -/
def ReactorAction.TakesDown (c : ℕ) (own : LoopId) : ReactorAction → Prop
  | .onClose _ _ => True
  | .swapToDoList l | .callNext l | .endToDoList l => l = .main ∨ l = own
  | .release c' | .destroy c' => c' = c
  | _ => False

namespace Reactors

variable {s t : Reactors} {c threadNums : ℕ} {own : LoopId}

/-- The threads leave `HandleClose`. -/
theorem Doomed.canReach_outside (h : s.Doomed c own) :
    (reactorSystem threadNums).CanReach (ReactorAction.TakesDown c own) s
      fun t => t.Doomed c own ∧ t.closing = [] := by
  refine LTS.CanReach.of_rank (fun t => t.closing.length) ?_ h
  intro s h hne
  obtain ⟨⟨thread, c'⟩, hmem⟩ := List.exists_mem_of_ne_nil _ hne
  obtain ⟨t, hact, ht⟩ := h.act (a := .onClose thread c') hmem
  refine ⟨.onClose thread c', t, trivial, ⟨hmem, hact⟩, ht, ?_⟩
  obtain ⟨-, -, hclosing, -⟩ := onClose_spec hact
  rw [hclosing, List.length_erase_of_mem hmem]
  exact Nat.sub_lt (List.length_pos_of_mem hmem) Nat.one_pos

/-- The work a functor makes: a removal queues a detachment. -/
def work : CloseFunctor → ℕ
  | .handleCloseInLoop _ => 2
  | .connectionDestructor _ => 1

/-- How far a loop is from having called all its functors, and ended its batch. -/
def backlog (x : ReactorLoop) : ℕ :=
  3 * (x.pending.map work).sum +
    match x.batch with
    | some ⟨[], _⟩ => 2
    | none => 1
    | some ⟨_ :: _, _⟩ => 0

theorem sum_work_queued_lt (f : CloseFunctor) (l : LoopId) :
    ((s.queued f l).map work).sum < work f := by
  cases f with
  | handleCloseInLoop c =>
    rw [queued]
    split <;> simp [work]
  | connectionDestructor c => simp [queued, work]

/-- A loop calls its functors. Removals that the main reactor has called do not come back. -/
theorem Doomed.canReach_drained {P : Prop} (h : s.Doomed c own) (hclosing : s.closing = [])
    {l : LoopId} (hl : l = .main ∨ l = own)
    (hP : P → .handleCloseInLoop c ∉ (s.loop .main).holding) :
    (reactorSystem threadNums).CanReach (ReactorAction.TakesDown c own) s
      fun t => (t.Doomed c own ∧ t.closing = [] ∧
        (P → .handleCloseInLoop c ∉ (t.loop .main).holding)) ∧ (t.loop l).holding = [] := by
  refine LTS.CanReach.of_rank (fun t => backlog (t.loop l)) ?_ ⟨h, hclosing, hP⟩
  rintro s ⟨h, hclosing, hP⟩ hne
  have hfree : s.Free l := by
    intro c' hc'
    simp [hclosing] at hc'
  -- no thread is inside `HandleClose`, so no removal is queued
  have hkept : ∀ {a : ReactorAction} {t : Reactors}, s.Enabled a → s.act a = .ok t → P →
      .handleCloseInLoop c ∉ (t.loop .main).holding := by
    intro a t ha hact p hmem
    rcases mem_holding_act h.orderly h.housed ha hact hmem with hold | ⟨-, -, hnew⟩
    · exact hP p hold
    · obtain ⟨thread, hthread⟩ := hnew c rfl
      simp [hclosing] at hthread
  -- The loop takes a batch, ends an empty one, or calls the next functor.
  rcases hbatch : (s.loop l).batch with _ | ⟨_ | ⟨f, rest⟩, called⟩
  · obtain ⟨t, hact, ht⟩ := h.act (a := .swapToDoList l) ⟨hfree, hbatch⟩
    refine ⟨.swapToDoList l, t, hl, ⟨⟨hfree, hbatch⟩, hact⟩,
      ⟨ht, ?_, hkept (a := .swapToDoList l) ⟨hfree, hbatch⟩ hact⟩, ?_⟩
    · obtain rfl := Except.ok.inj hact
      exact hclosing
    · obtain rfl := Except.ok.inj hact
      have htodo : (s.loop l).toDoList ≠ [] := by
        intro htodo
        simp [ReactorLoop.holding, hbatch, htodo] at hne
      obtain ⟨g, todo, htodo⟩ := List.exists_cons_of_ne_nil htodo
      simp [backlog, swapToDoList, setLoop, ReactorLoop.pending, hbatch, htodo]
  · have ha : s.Enabled (.endToDoList l) := ⟨hfree, called, hbatch⟩
    obtain ⟨t, hact, ht⟩ := h.act ha
    refine ⟨.endToDoList l, t, hl, ⟨ha, hact⟩, ⟨ht, ?_, hkept ha hact⟩, ?_⟩
    · obtain rfl := Except.ok.inj hact
      exact hclosing
    · obtain rfl := Except.ok.inj hact
      simp [backlog, endToDoList, setLoop, ReactorLoop.pending, hbatch]
  · have ha : s.Enabled (.callNext l) := ⟨hfree, f, rest, called, hbatch⟩
    obtain ⟨t, hact, ht⟩ := h.act ha
    obtain ⟨-, -, hclosing', hloop⟩ := callNext_spec hbatch hact
    refine ⟨.callNext l, t, hl, ⟨ha, hact⟩, ⟨ht, hclosing'.trans hclosing, hkept ha hact⟩, ?_⟩
    obtain ⟨htodo, hbatch'⟩ := hloop l
    rw [if_pos rfl] at hbatch'
    have hlt := sum_work_queued_lt (s := s) f l
    simp only [backlog, ReactorLoop.pending, hbatch', hbatch, htodo, List.map_append,
      List.map_cons, List.sum_append, List.sum_cons]
    split <;> omega

/-- The other holders of a connection let go of it. -/
theorem Doomed.canReach_released {P : Reactors → Prop} (h : s.Doomed c own) (hP : P s)
    (hstep : ∀ s n, P s → P (s.setConn c { s.conn c with holders := n })) :
    (reactorSystem threadNums).CanReach (ReactorAction.TakesDown c own) s
      fun t => (t.Doomed c own ∧ P t) ∧ (t.conn c).holders = 0 := by
  refine LTS.CanReach.of_rank (fun t => (t.conn c).holders) ?_ ⟨h, hP⟩
  rintro s ⟨h, hP⟩ hne
  have ha : s.Enabled (.release c) := Nat.pos_of_ne_zero hne
  obtain ⟨t, hact, ht⟩ := h.act ha
  refine ⟨.release c, t, rfl, ⟨ha, hact⟩, ⟨ht, ?_⟩, ?_⟩
  · obtain rfl := Except.ok.inj hact
    exact hstep s _ hP
  · obtain rfl := Except.ok.inj hact
    simpa [setConn] using Nat.sub_lt ha Nat.one_pos

/-- A connection whose functors have been called is closed once nothing holds it. -/
theorem Doomed.not_referenced (h : s.Doomed c own) (hclosing : s.closing = [])
    (hremoved : .handleCloseInLoop c ∉ (s.loop .main).holding)
    (hdetached : .connectionDestructor c ∉ (s.loop own).holding)
    (hholders : (s.conn c).holders = 0) : ¬ s.Referenced c := by
  -- a connection that is disconnected and not to be removed has no entry
  have hentry : (s.ledger c).entry = false := by
    have hcloses : (s.ledger c).closes = 0 := by
      have hcount : (s.loop .main).pending.count (.handleCloseInLoop c) = 0 :=
        List.count_eq_zero.mpr fun hf => hremoved (ReactorLoop.mem_holding hf)
      simp [ledger, hclosing, hcount]
    have hstate : (s.ledger c).state = .disconected := h.state
    obtain ⟨p, hp⟩ := h.orderly.phase c
    rw [hp] at hcloses hstate ⊢
    cases p <;> first | rfl | exact absurd hstate (by decide) | exact absurd hcloses (by decide)
  -- holders, an entry, a thread inside `HandleClose`, a functor
  rintro (hpos | ⟨fd, hfd⟩ | ⟨thread, hthread⟩ | ⟨l, f, hf, hconn⟩)
  · omega
  · apply of_decide_eq_false hentry
    rw [h.orderly.entry_fd fd c hfd, hfd]
  · simp [hclosing] at hthread
  · obtain ⟨hl, -⟩ := h.housed l f hf
    cases f with
    | handleCloseInLoop c' =>
      obtain rfl : c' = c := hconn
      obtain rfl : l = .main := hl
      exact hremoved hf
    | connectionDestructor c' =>
      obtain rfl : c' = c := hconn
      rw [home, h.own_loop] at hl
      subst hl
      exact hdetached hf

/-- **A connection that was seen closed can be taken down**, whatever the threads are doing. -/
theorem Doomed.canReach_closed (h : s.Doomed c own) (threadNums : ℕ) :
    (reactorSystem threadNums).CanReach (ReactorAction.TakesDown c own) s
      fun t => (t.conn c).closed = true := by
  -- The threads leave `HandleClose` ...
  apply h.canReach_outside.trans
  rintro s ⟨h, hclosing⟩
  -- ... the main reactor removes the connection ...
  refine (h.canReach_drained (P := False) hclosing (Or.inl rfl) False.elim).trans ?_
  rintro s ⟨⟨h, hclosing, -⟩, hmain⟩
  have hremoved : .handleCloseInLoop c ∉ (s.loop .main).holding := by
    rw [hmain]
    exact List.not_mem_nil
  -- ... its own loop detaches it ...
  refine (h.canReach_drained (P := True) hclosing (Or.inr rfl) fun _ => hremoved).trans ?_
  rintro s ⟨⟨h, hclosing, hremoved⟩, hown⟩
  -- ... and the last holder lets go of it.
  refine (h.canReach_released (P := fun s => s.closing = [] ∧
    .handleCloseInLoop c ∉ (s.loop .main).holding ∧ (s.loop own).holding = [])
    ⟨hclosing, hremoved trivial, hown⟩ fun _ _ => id).trans ?_
  rintro s ⟨⟨h, hclosing, hremoved, hown⟩, hholders⟩
  cases hclosed : (s.conn c).closed with
  | true => exact .refl hclosed
  | false =>
    have hunreferenced : ¬ s.Referenced c := by
      refine h.not_referenced hclosing hremoved ?_ hholders
      rw [hown]
      exact List.not_mem_nil
    refine .of_step (x := .destroy c) rfl ⟨⟨h.made, hclosed, hunreferenced⟩, rfl⟩ ?_
    simp [destroy, record, setConn]

end Reactors

end CppServerStudio
