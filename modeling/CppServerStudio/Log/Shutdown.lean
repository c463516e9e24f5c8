import CppServerStudio.Log.Accepted

/-!
# What the log has written when `Stop` returns

`Stop` clears `running_` and joins the backend. A backend that has tested `running_` for its turn
finishes the turn, and with it writes all that was appended before. One that is about to test it
leaves its loop at once, with whatever is in the buffers.

## Main definitions

* `LogState.Stopping`: the order of the calls and of the backend's phases
* `LogState.InTurn`, `LogState.Flushed`, `LogState.NoneLost`: the state of the log before `running_`
  is cleared, and after `Stop` has returned

## Main results

* `LogState.Stopping.act`: one step keeps the order
* `LogState.Cleared.step`: one step after `running_` was cleared
* `clearRunning_of_returned`: what a run in which `Stop` has returned consists of
* `stop_noneLost_iff`: the interleavings in which no message is lost
-/

namespace CppServerStudio

open Scanning

namespace LogState

variable {s t : LogState}

/-- **The order of things**: `Stop` is called after `Start`, `running_` is set in between, and the
backend ends only once it was cleared. -/
structure Stopping (s : LogState) : Prop where
  started : s.stop ≠ .before → s.backend.phase ≠ .unstarted
  running : s.backend.phase ≠ .unstarted → (s.running ↔ s.stop = .before ∨ s.stop = .called)
  ended : s.backend.phase = .ended → ¬ s.running
  returned : s.stop = .returned → s.backend.phase = .ended
  promised : s.promised <+: s.appended

theorem stopping_init : Stopping {} where
  started h := absurd rfl h
  running h := absurd rfl h
  ended := nofun
  returned := nofun
  promised := List.prefix_rfl

/-- The backend is inside its loop. -/
def InLoop (s : LogState) : Prop := s.backend.phase ≠ .unstarted ∧ s.backend.phase ≠ .ended

theorem inLoop_of_phase {phase : BackendPhase} (h : s.backend.phase = phase)
    (hphase : phase ≠ .unstarted ∧ phase ≠ .ended) : s.InLoop := by
  subst h
  exact hphase

/-- A backend inside its loop goes on to another phase. -/
theorem Stopping.setPhase (h : s.Stopping) (hloop : s.InLoop) {phase : BackendPhase}
    (hphase : phase ≠ .unstarted) (hrunning : phase = .ended → ¬ s.running) :
    (s.setPhase phase).Stopping where
  started _ := hphase
  running _ := h.running hloop.1
  ended := hrunning
  returned hreturned := absurd (h.returned hreturned) hloop.2
  promised := h.promised

/-- A backend inside its loop finishes a turn. -/
theorem Stopping.turn (h : s.Stopping) (hflow : s.Flowing) (hloop : s.InLoop)
    (hturn : s.turn = .ok t) : t.Stopping := by
  obtain ⟨u, hu, -, hphase, -, happended, hpromised, hrunning, hstop⟩ := hflow.turn
  obtain rfl := Except.ok.inj (hu.symm.trans hturn)
  obtain ⟨hstarted, hended⟩ : u.InLoop := inLoop_of_phase hphase (by simp)
  refine ⟨fun _ => hstarted, fun _ => ?_, fun hu => absurd hu hended, fun hu => ?_, ?_⟩
  · rw [hrunning, hstop]
    exact h.running hloop.1
  · rw [hstop] at hu
    exact absurd (h.returned hu) hloop.2
  · rw [happended, hpromised]
    exact h.promised

/-- **One step** keeps the order. -/
theorem Stopping.act (h : s.Stopping) (hflow : s.Flowing) {e : LogStep} (he : s.Enabled e)
    (hact : s.act e = .ok t) : t.Stopping := by
  cases e with
  | start =>
    obtain rfl := Except.ok.inj hact
    -- `Stop` is not called before `Start`
    have hbefore : s.stop = .before := by
      by_contra hne
      exact h.started hne he
    refine ⟨by simp [LogState.setPhase], by simp [LogState.setPhase, hbefore],
      by simp [LogState.setPhase], ?_, h.promised⟩
    intro hreturned
    cases hbefore.symm.trans hreturned
  | append data =>
    obtain ⟨⟨logging, m⟩, -, ht⟩ := bind_eq_ok.mp hact
    obtain rfl := Except.ok.inj ht
    exact ⟨h.started, h.running, h.ended, h.returned, h.promised.trans (List.prefix_append _ _)⟩
  | test =>
    obtain rfl := Except.ok.inj hact
    have hloop : s.InLoop := inLoop_of_phase he (by simp)
    split
    · exact h.setPhase hloop (by simp) (by simp)
    · -- the loop is left because `running_` was cleared
      rename_i hrunning
      exact h.setPhase hloop (by simp) fun _ => hrunning
  | lock =>
    have hloop : s.InLoop := inLoop_of_phase he (by simp)
    rw [LogState.act] at hact
    split at hact
    · obtain rfl := Except.ok.inj hact
      exact h.setPhase hloop (by simp) (by simp)
    · exact h.turn hflow hloop hact
  | timeout => exact h.turn hflow (inLoop_of_phase he (by simp)) hact
  | callStop =>
    obtain rfl := Except.ok.inj hact
    obtain ⟨hstarted, hbefore⟩ := he
    refine ⟨fun _ => hstarted, fun _ => ?_, h.ended, by simp, List.prefix_rfl⟩
    rw [h.running hstarted, hbefore]
    simp
  | clearRunning =>
    obtain rfl := Except.ok.inj hact
    have hcalled : s.stop = .called := he
    have hstarted : s.backend.phase ≠ .unstarted := h.started (by simp [hcalled])
    exact ⟨fun _ => hstarted, by simp, by simp, by simp, h.promised⟩
  | join =>
    obtain rfl := Except.ok.inj hact
    obtain ⟨hcleared, hended⟩ := he
    have hstarted : s.backend.phase ≠ .unstarted := by simp [hended]
    refine ⟨fun _ => hstarted, fun _ => ?_, h.ended, fun _ => hended, h.promised⟩
    rw [h.running hstarted, hcleared]
    simp

theorem stopping_of_run {steps : List LogStep} (hrun : loggingSystem.Run steps s) :
    s.Flowing ∧ s.Stopping := by
  refine hrun.invariant (I := fun s => s.Flowing ∧ s.Stopping) ?_ ?_
  · rintro s rfl
    exact ⟨flowing_init, stopping_init⟩
  · rintro s e t ⟨hflow, hstop⟩ ⟨he, hact⟩
    obtain ⟨t', hact', ht⟩ := hflow.act e
    obtain rfl := Except.ok.inj (hact'.symm.trans hact)
    exact ⟨ht, hstop.act hflow he hact⟩

/-! ## What is written in the end -/

/-- The backend has tested `running_` for its turn, and not finished the turn. -/
def InTurn (s : LogState) : Prop := s.backend.phase = .tested ∨ s.backend.phase = .waiting

/-- All that was copied before the call of `Stop` is written. -/
def Flushed (s : LogState) : Prop := copiedBytes s.promised <+: s.written

/-- Every message that fits an empty buffer and was appended before the call of `Stop` was copied
and is written. -/
def NoneLost (s : LogState) : Prop :=
  (∀ m ∈ s.promised, m.data.length < fixedLargeBufferSize → m.copied) ∧ s.Flushed

theorem copiedBytes_prefix {ms ms' : List Appended} (h : ms <+: ms') :
    copiedBytes ms <+: copiedBytes ms' := by
  obtain ⟨later, rfl⟩ := h
  exact ⟨copiedBytes later, List.flatMap_append.symm⟩

/-- No other step clears `running_`. -/
theorem stop_of_act {e : LogStep} (he : s.Enabled e) (hact : s.act e = .ok t)
    (hne : e ≠ .clearRunning) (ht : t.stop = .cleared ∨ t.stop = .returned) :
    s.stop = .cleared ∨ s.stop = .returned := by
  -- a turn of the backend leaves `Stop` where it is
  have hturn : s.turn = .ok t → t.stop = s.stop := by
    intro hturn
    obtain ⟨⟨backend, logging, bytes⟩, -, hu⟩ := bind_eq_ok.mp hturn
    obtain rfl := Except.ok.inj hu
    rfl
  cases e with
  | start | test =>
    obtain rfl := Except.ok.inj hact
    exact ht
  | append data =>
    obtain ⟨⟨logging, m⟩, -, hu⟩ := bind_eq_ok.mp hact
    obtain rfl := Except.ok.inj hu
    exact ht
  | lock =>
    rw [LogState.act] at hact
    split at hact
    · obtain rfl := Except.ok.inj hact
      exact ht
    · rwa [hturn hact] at ht
  | timeout => rwa [hturn hact] at ht
  | callStop =>
    obtain rfl := Except.ok.inj hact
    rcases ht with ht | ht <;> cases ht
  | clearRunning => exact absurd rfl hne
  | join => exact Or.inl he.1

/-- A state behind the clearing of `running_`, with what was promised then. -/
structure Cleared (promised : List Appended) (s : LogState) : Prop where
  flowing : s.Flowing
  stopping : s.Stopping
  stop : s.stop = .cleared ∨ s.stop = .returned
  promised_eq : s.promised = promised

variable {ms : List Appended}

theorem Cleared.not_running (h : Cleared ms s) : ¬ s.running := by
  have hstarted : s.backend.phase ≠ .unstarted := by
    apply h.stopping.started
    rcases h.stop with hstop | hstop <;> rw [hstop] <;> nofun
  rw [h.stopping.running hstarted]
  rcases h.stop with hstop | hstop <;> rw [hstop] <;> simp

theorem not_inTurn_of_phase (h : s.backend.phase = .top ∨ s.backend.phase = .ended) :
    ¬ s.InTurn := by
  rintro (hp | hp) <;> rcases h with h | h <;> cases hp.symm.trans h

/-- **One step** of a thread after `running_` was cleared: outside of a turn the backend writes
nothing more, and a turn writes all that was promised. -/
theorem Cleared.step (h : Cleared ms s) {e : LogStep} (hstep : loggingSystem.step s e t) :
    Cleared ms t ∧
      (¬ s.InTurn ∧ ¬ t.InTurn ∧ t.written = s.written ∨
        s.InTurn ∧ (t.InTurn ∨ ¬ t.InTurn ∧ t.Flushed)) := by
  obtain ⟨he, hact⟩ := hstep
  obtain ⟨u, hu, hflow⟩ := h.flowing.act e
  obtain rfl := Except.ok.inj (hu.symm.trans hact)
  have hstopping := h.stopping.act h.flowing he hact
  -- a turn that is finished
  have hturn : s.InTurn → s.turn = .ok u →
      Cleared ms u ∧ s.InTurn ∧ (u.InTurn ∨ ¬ u.InTurn ∧ u.Flushed) := by
    intro hin hturn
    obtain ⟨u', hu', -, hphase, hwritten, happended, hpromised, -, hstop⟩ := h.flowing.turn
    obtain rfl := Except.ok.inj (hu'.symm.trans hturn)
    refine ⟨⟨hflow, hstopping, hstop ▸ h.stop, hpromised.trans h.promised_eq⟩, hin, Or.inr ⟨?_, ?_⟩⟩
    · exact not_inTurn_of_phase (Or.inl hphase)
    · rw [Flushed, hpromised, hwritten]
      exact copiedBytes_prefix h.stopping.promised
  -- a step that leaves the backend where it is
  have hsame : u.backend.phase = s.backend.phase → u.written = s.written →
      u.promised = s.promised → (u.stop = .cleared ∨ u.stop = .returned) →
      Cleared ms u ∧ (¬ s.InTurn ∧ ¬ u.InTurn ∧ u.written = s.written ∨
        s.InTurn ∧ (u.InTurn ∨ ¬ u.InTurn ∧ u.Flushed)) := by
    intro hphase hwritten hpromised hstop
    have hiff : u.InTurn ↔ s.InTurn := by rw [InTurn, InTurn, hphase]
    refine ⟨⟨hflow, hstopping, hstop, hpromised.trans h.promised_eq⟩, ?_⟩
    by_cases hin : s.InTurn
    · exact Or.inr ⟨hin, Or.inl (hiff.mpr hin)⟩
    · exact Or.inl ⟨hin, mt hiff.mp hin, hwritten⟩
  cases e with
  | start =>
    refine absurd he (h.stopping.started ?_)
    rcases h.stop with hstop | hstop <;> rw [hstop] <;> nofun
  | append data =>
    obtain ⟨⟨logging, m⟩, -, ht⟩ := bind_eq_ok.mp hact
    obtain rfl := Except.ok.inj ht
    exact hsame rfl rfl rfl h.stop
  | test =>
    obtain rfl := Except.ok.inj hact
    have htop : s.backend.phase = .top := he
    refine ⟨⟨hflow, hstopping, h.stop, h.promised_eq⟩, Or.inl ⟨?_, ?_, rfl⟩⟩
    · exact not_inTurn_of_phase (Or.inl htop)
    · refine not_inTurn_of_phase (Or.inr ?_)
      simp [setPhase, h.not_running]
  | lock =>
    have hin : s.InTurn := Or.inl he
    rw [LogState.act] at hact
    split at hact
    · obtain rfl := Except.ok.inj hact
      exact ⟨⟨hflow, hstopping, h.stop, h.promised_eq⟩, Or.inr ⟨hin, Or.inl (Or.inr rfl)⟩⟩
    · obtain ⟨hcleared, hrest⟩ := hturn hin hact
      exact ⟨hcleared, Or.inr hrest⟩
  | timeout =>
    obtain ⟨hcleared, hrest⟩ := hturn (Or.inr he) hact
    exact ⟨hcleared, Or.inr hrest⟩
  | callStop =>
    have hbefore : s.stop = .before := he.2
    rcases h.stop with hstop | hstop <;> cases hbefore.symm.trans hstop
  | clearRunning =>
    have hcalled : s.stop = .called := he
    rcases h.stop with hstop | hstop <;> cases hcalled.symm.trans hstop
  | join =>
    obtain rfl := Except.ok.inj hact
    exact hsame rfl rfl rfl (Or.inr rfl)

/-- **All steps** after `running_` was cleared. -/
theorem Cleared.steps (h : Cleared ms s) {later : List LogStep}
    (hsteps : loggingSystem.Steps s later t) :
    Cleared ms t ∧ (¬ s.InTurn → ¬ t.InTurn ∧ t.written = s.written) ∧
      (s.InTurn → t.InTurn ∨ ¬ t.InTurn ∧ t.Flushed) := by
  refine hsteps.history (I := fun _ t => Cleared ms t ∧
    (¬ s.InTurn → ¬ t.InTurn ∧ t.written = s.written) ∧
      (s.InTurn → t.InTurn ∨ ¬ t.InTurn ∧ t.Flushed)) ⟨h, fun hn => ⟨hn, rfl⟩, Or.inl⟩ ?_
  rintro _ t e u ⟨ht, hout, hin⟩ hstep
  obtain ⟨hu, hnext⟩ := ht.step hstep
  refine ⟨hu, fun hs => ?_, fun hs => ?_⟩
  · obtain ⟨hnt, hwritten⟩ := hout hs
    rcases hnext with ⟨-, hnu, heq⟩ | ⟨hyes, -⟩
    · exact ⟨hnu, heq.trans hwritten⟩
    · exact absurd hyes hnt
  · rcases hnext with ⟨hnt, hnu, heq⟩ | ⟨-, hu'⟩
    · rcases hin hs with hyes | ⟨-, hflushed⟩
      · exact absurd hyes hnt
      · refine Or.inr ⟨hnu, ?_⟩
        rw [Flushed, heq, hu.promised_eq, ← ht.promised_eq]
        exact hflushed
    · exact hu'

end LogState

/-- Whenever `Stop` has returned, it has cleared `running_` before. -/
theorem clearRunning_of_returned {steps : List LogStep} {s : LogState}
    (hrun : loggingSystem.Run steps s) (hreturned : s.stop = .returned) :
    ∃ before s₀ s₁ later, steps = before ++ .clearRunning :: later ∧ loggingSystem.Run before s₀ ∧
      loggingSystem.step s₀ .clearRunning s₁ ∧ loggingSystem.Steps s₁ later s := by
  obtain ⟨before, s₀, e, s₁, later, rfl, hbefore, hnot, hstep, hcleared, hlater⟩ :=
    hrun.exists_step (P := fun s => s.stop = .cleared ∨ s.stop = .returned)
      (by rintro s rfl (h | h) <;> cases h) (Or.inr hreturned)
  have he : e = .clearRunning := by
    obtain ⟨henabled, hact⟩ := hstep
    by_contra hne
    exact hnot (LogState.stop_of_act henabled hact hne hcleared)
  subst he
  exact ⟨before, s₀, s₁, later, rfl, hbefore, hstep, hlater⟩

open LogState in
/-- **The messages that `Stop` loses**: when it returns, all that was copied before its call is
written if and only if, when it cleared `running_`, the backend was in a turn or had written that
already. And no message that fits a buffer is lost if and only if, besides, none of them had exactly
the size of the room left in `current_`. -/
theorem stop_noneLost_iff {before later : List LogStep} {s₀ s₁ s : LogState}
    (hrun : loggingSystem.Run before s₀) (hclear : loggingSystem.step s₀ .clearRunning s₁)
    (hsteps : loggingSystem.Steps s₁ later s) (hreturned : s.stop = .returned) :
    (s.Flushed ↔ s₀.InTurn ∨ s₀.Flushed) ∧
    (s.NoneLost ↔ (s₀.InTurn ∨ s₀.Flushed) ∧
      ∀ m ∈ s₀.promised, m.data.length < fixedLargeBufferSize → m.data.length ≠ m.room) := by
  obtain ⟨hflow, hstop⟩ := stopping_of_run hrun
  obtain ⟨hflow₁, hstop₁⟩ := stopping_of_run (hrun.snoc hclear)
  obtain ⟨he, hact⟩ := hclear
  obtain rfl := Except.ok.inj hact
  have hcleared : Cleared s₀.promised { s₀ with stop := .cleared, running := false } :=
    ⟨hflow₁, hstop₁, Or.inl rfl, rfl⟩
  obtain ⟨hs, hout, hin⟩ := hcleared.steps hsteps
  -- the backend was joined
  have hended : ¬ s.InTurn := not_inTurn_of_phase (Or.inr (hs.stopping.returned hreturned))
  -- A turn that was begun is finished; without one nothing more is written.
  have hflushed : s.Flushed ↔ s₀.InTurn ∨ s₀.Flushed := by
    by_cases hturn : s₀.InTurn
    · rcases hin hturn with hyes | ⟨-, hflushed⟩
      · exact absurd hyes hended
      · exact ⟨fun _ => Or.inl hturn, fun _ => hflushed⟩
    · obtain ⟨-, hwritten⟩ := hout hturn
      rw [Flushed, hwritten, hs.promised_eq]
      exact ⟨Or.inr, fun h => h.resolve_left hturn⟩
  refine ⟨hflushed, ?_⟩
  rw [NoneLost, hflushed, hs.promised_eq, and_comm]
  refine and_congr_right fun _ => forall₂_congr fun m hm => imp_congr_right fun hfits => ?_
  exact hflow.copied m (hstop.promised.subset hm) hfits

/-! ## A message that is lost -/

/-- A message is appended while the backend has not tested `running_` yet. -/
def stopAtOnce : List LogStep :=
  [.start, .append (ofString "a"), .callStop, .clearRunning, .test, .join]

/-- The backend leaves its loop without a turn, and the message is not written. -/
theorem not_noneLost_stopAtOnce :
    ¬ ∀ steps s, loggingSystem.Run steps s → s.stop = .returned → s.NoneLost := by
  intro h
  have hinit : loggingSystem.Run [] {} := .nil rfl
  have hstart : loggingSystem.Run [.start] _ := hinit.snoc ⟨rfl, rfl⟩
  have happend : loggingSystem.Run [.start, .append (ofString "a")] _ :=
    hstart.snoc ⟨trivial, rfl⟩
  have hcall : loggingSystem.Run [.start, .append (ofString "a"), .callStop] _ :=
    happend.snoc ⟨⟨nofun, rfl⟩, rfl⟩
  have hclear : loggingSystem.Run [.start, .append (ofString "a"), .callStop, .clearRunning] _ :=
    hcall.snoc ⟨rfl, rfl⟩
  have htest : loggingSystem.Run
      [.start, .append (ofString "a"), .callStop, .clearRunning, .test] _ :=
    hclear.snoc ⟨rfl, rfl⟩
  have hjoin : loggingSystem.Run stopAtOnce _ := htest.snoc ⟨⟨rfl, rfl⟩, rfl⟩
  have hprefix : copiedBytes [⟨ofString "a", fixedLargeBufferSize, true⟩] <+: [] :=
    (h stopAtOnce _ hjoin rfl).2
  exact absurd hprefix (by decide)

/-- The message was appended while the backend waits, and `Stop` is called. -/
def stopWhileWaiting : LogState where
  logging := { current := some (({} : LargeBuffer).append (ofString "a")) }
  running := true
  backend := { phase := .waiting }
  stop := .called
  appended := [⟨ofString "a", fixedLargeBufferSize, true⟩]
  promised := [⟨ofString "a", fixedLargeBufferSize, true⟩]

/-- The wait ends, and the message is written before the backend leaves its loop. -/
theorem stop_noneLost_waiting : ∃ s,
    loggingSystem.Run [.start, .test, .lock, .append (ofString "a"), .callStop, .clearRunning,
      .timeout, .test, .join] s ∧ s.stop = .returned ∧ s.NoneLost := by
  have hinit : loggingSystem.Run [] {} := .nil rfl
  have hstart : loggingSystem.Run [.start] _ := hinit.snoc ⟨rfl, rfl⟩
  have htest : loggingSystem.Run [.start, .test] _ := hstart.snoc ⟨rfl, rfl⟩
  have hlock : loggingSystem.Run [.start, .test, .lock] _ := htest.snoc ⟨rfl, rfl⟩
  have happend : loggingSystem.Run [.start, .test, .lock, .append (ofString "a")] _ :=
    hlock.snoc ⟨trivial, rfl⟩
  have hcall : loggingSystem.Run [.start, .test, .lock, .append (ofString "a"), .callStop]
      stopWhileWaiting := happend.snoc ⟨⟨nofun, rfl⟩, rfl⟩
  have hclear : loggingSystem.step stopWhileWaiting .clearRunning
      { stopWhileWaiting with stop := .cleared, running := false } := ⟨rfl, rfl⟩
  have htimeout : loggingSystem.Steps { stopWhileWaiting with stop := .cleared, running := false }
      [.timeout] _ := LTS.Steps.nil.snoc ⟨rfl, rfl⟩
  have hended : loggingSystem.Steps { stopWhileWaiting with stop := .cleared, running := false }
      [.timeout, .test] _ := htimeout.snoc ⟨rfl, rfl⟩
  have hjoin : loggingSystem.Steps { stopWhileWaiting with stop := .cleared, running := false }
      [.timeout, .test, .join] _ := hended.snoc ⟨⟨rfl, rfl⟩, rfl⟩
  have hrun := (hcall.snoc hclear).append hjoin
  refine ⟨_, hrun, rfl, (stop_noneLost_iff hcall hclear hjoin rfl).2.mpr ⟨Or.inl (Or.inr rfl), ?_⟩⟩
  intro m hm _
  obtain rfl : m = ⟨ofString "a", fixedLargeBufferSize, true⟩ := List.mem_singleton.mp hm
  decide

end CppServerStudio
