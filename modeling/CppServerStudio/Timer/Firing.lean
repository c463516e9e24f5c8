import CppServerStudio.Timer.Returning

/-!
# The timers fire

## Main results

* `TimerQueue.not_mem_timers`: a timer that does not repeat leaves the set when it has expired
* `TimerQueue.timers_fire`: no timer is lost, held twice or run early, and those that expire run
-/

namespace CppServerStudio

namespace TimerQueue

variable {s t : TimerQueue} {added : List (ℤ × Interval)}

/-- No step fails an assertion. -/
theorem exists_act (s : TimerQueue) (x : TimerAction) : ∃ t, s.act x = .ok t := by
  cases x with
  | addTimer address timestamp interval now =>
    change ∃ t, s.addTimer address timestamp interval now = .ok t
    unfold addTimer
    dsimp only
    split
    · obtain ⟨spec, -, -, hok⟩ := resetTimerFd_ok _ address now
      exact ⟨_, hok⟩
    · exact ⟨_, rfl⟩
  | resetNext now =>
    change ∃ t, s.resetNext now = .ok t
    unfold resetNext
    split
    · dsimp only
      split <;> exact ⟨_, rfl⟩
    · dsimp only
      split
      · exact ⟨_, rfl⟩
      · rename_i entry _
        obtain ⟨spec, -, -, hok⟩ := resetTimerFd_ok { s with phase := .idle } entry.timer now
        exact ⟨_, hok⟩
    · exact ⟨_, rfl⟩
  | expire | handleRead | callNext | leaveCallback => exact ⟨_, rfl⟩

/-- A timer that was added is where its phase says. -/
theorem Kept.exists_phase (h : s.Kept added) {c : ℕ} (hc : c < s.made) : ∃ timestamp interval p,
    added[c]? = some (timestamp, interval) ∧
      (timerLife timestamp interval).Run (stepsOf s.log c) p ∧
      (p = .finished ∨ ∃ e ∈ s.held, (s.timerOf e).id = c) ∧
      (∀ expiration, p = .waiting expiration → ∃ e, (e ∈ s.timers ∨ e ∈ s.phase.unrun) ∧
        (s.timerOf e).id = c ∧ e.expiration = expiration) ∧
      (s.phase = .idle → p = .finished ∨ ∃ expiration, p = .waiting expiration) := by
  by_cases hheld : ∃ e ∈ s.held, (s.timerOf e).id = c
  · obtain ⟨e, he, rfl⟩ := hheld
    have hcases :
        (e ∈ s.timers ∨ e ∈ s.phase.unrun) ∨ e ∈ s.phase.current ∨ e ∈ s.phase.toReset := by
      rw [mem_held, HandleReadPhase.active_eq, List.mem_append, List.mem_append] at he
      tauto
    rcases hcases with hw | hc | hr
    · obtain ⟨timestamp, hadded, hrun⟩ := (h.waiting e hw).lives
      refine ⟨timestamp, _, _, hadded, hrun, .inr ⟨e, he, rfl⟩, ?_, fun _ => .inr ⟨_, rfl⟩⟩
      rintro _ ⟨⟩
      exact ⟨e, hw, rfl, rfl⟩
    · obtain ⟨timestamp, hadded, hrun⟩ := (h.running e hc).lives
      refine ⟨timestamp, _, _, hadded, hrun, .inr ⟨e, he, rfl⟩, ?_, ?_⟩
      · rintro _ ⟨⟩
      · intro hp
        rw [hp] at hc
        cases hc
    · obtain ⟨timestamp, hadded, hrun⟩ := h.ran e hr
      refine ⟨timestamp, _, _, hadded, hrun, .inr ⟨e, he, rfl⟩, ?_, ?_⟩
      · intro expiration hp
        split at hp <;> cases hp
      · intro hp
        rw [hp] at hr
        cases hr
  · -- a timer that is not held is finished
    push Not at hheld
    obtain ⟨timestamp, interval, hadded, hrun⟩ := h.gone c hc hheld
    refine ⟨timestamp, interval, .finished, hadded, hrun, .inl rfl, ?_, fun _ => .inl rfl⟩
    rintro _ ⟨⟩

/-- A timer at another address keeps its number. -/
theorem id_update_of_ne {address : ℕ} {e : Entry} (hne : e.timer ≠ address) (timer : Timer) :
    (Function.update s.timer address timer e.timer).id = (s.timerOf e).id := by
  rw [Function.update_of_ne hne, timerOf]

/-- An entry of the set behind a step: it was there before, with the same number; or its timer is
new, or repeats. -/
def Carried (s t : TimerQueue) (e : Entry) : Prop :=
  (e ∈ s.timers ∧ (t.timerOf e).id = (s.timerOf e).id) ∨ (t.timerOf e).id = s.made ∨
    (t.timerOf e).interval.positive = true

/-- `AddTimer` puts a new timer into the set. -/
theorem carried_addTimer {address : ℕ} {timestamp : ℤ} {interval : Interval} {now : ℤ} {e : Entry}
    (hfresh : ∀ e ∈ s.held, e.timer ≠ address)
    (ha : s.addTimer address timestamp interval now = .ok t) (he : e ∈ t.timers) :
    Carried s t e := by
  rw [addTimer_ok ha] at he ⊢
  rcases Finset.mem_insert.mp he with rfl | he
  · right
    left
    change (Function.update s.timer address _ address).id = s.made
    rw [Function.update_self]
    rfl
  · exact .inl ⟨he, id_update_of_ne (hfresh e (mem_held.mpr (.inl he))) _⟩

/-- `ResetTimers` puts a timer back into the set if it repeats. -/
theorem Kept.carried_resetNext {reset rest : List Entry} {now : ℤ} {e : Entry} (h : s.Kept added)
    (hp : s.phase = .resetting reset rest) (ha : s.resetNext now = .ok t) (he : e ∈ t.timers) :
    Carried s t e := by
  cases rest with
  | nil =>
    rcases resetNext_nil_cases hp ha with ⟨-, rfl⟩ | ⟨entry, spec, -, -, -, rfl⟩
    · exact .inl ⟨he, rfl⟩
    · exact .inl ⟨he, rfl⟩
  | cons entry rest =>
    rcases resetNext_cons_cases hp ha with ⟨hrepeats, rfl⟩ | ⟨-, rfl⟩
    · have hran := h.ran entry (by rw [hp]; exact List.mem_cons_self)
      rw [Timer.Ran, hrepeats, if_pos rfl] at hran
      obtain ⟨timestamp, -, hrun⟩ := hran
      -- a timer that is due again has an interval
      have hpositive := positive_of_due hrun rfl
      rcases Finset.mem_insert.mp he with rfl | he
      · right
        right
        change (Function.update s.timer entry.timer _ entry.timer).interval.positive = true
        rw [Function.update_self]
        exact hpositive
      · have hne := h.timer_ne (held_resetting hp) (Multiset.mem_add.mpr (.inl he))
        exact .inl ⟨he, id_update_of_ne hne _⟩
    · exact .inl ⟨he, rfl⟩

/-- What a step puts into the set is a new timer, or one that repeats. -/
theorem Kept.carried {x : TimerAction} (h : s.Kept added) (hs : timerSystem.step s x t)
    {e : Entry} (he : e ∈ t.timers) : Carried s t e := by
  obtain ⟨hen, ha⟩ := hs
  cases hen with
  | addTimer timestamp interval now hfresh hp => exact carried_addTimer hfresh ha he
  | expire hfd =>
    obtain rfl := Except.ok.inj ha
    exact .inl ⟨he, rfl⟩
  | handleRead now hp =>
    obtain rfl := Except.ok.inj ha
    rw [handleRead_eq] at he ⊢
    exact .inl ⟨Finset.mem_of_mem_filter e he, rfl⟩
  -- the loop over the expired timers leaves the set alone
  | @callNext now ran rest hp =>
    obtain rfl := Except.ok.inj ha
    cases rest with
    | nil =>
      rw [TimerQueue.callNext_nil hp] at he ⊢
      exact .inl ⟨he, rfl⟩
    | cons entry rest =>
      rw [TimerQueue.callNext_cons hp] at he ⊢
      exact .inl ⟨he, rfl⟩
  | leaveCallback again hp =>
    obtain rfl := Except.ok.inj ha
    rw [leaveCallback_eq hp] at he ⊢
    have hne := h.timer_ne (held_inCallback hp) (Multiset.mem_add.mpr (.inl he))
    exact .inl ⟨he, id_update_of_ne hne _⟩
  | resetNext now hp => exact h.carried_resetNext hp ha he

/-- The timers added before a step are numbered the same after it. -/
theorem added_append {xs ys : List TimerAction} {c : ℕ}
    (hc : c < (xs.filterMap TimerAction.added).length) :
    ((xs ++ ys).filterMap TimerAction.added)[c]? = (xs.filterMap TimerAction.added)[c]? := by
  rw [List.filterMap_append, List.getElem?_append_left hc]

/-- A timer that does not repeat is not in the set once a `HandleRead` has begun after its
expiration. -/
theorem not_mem_timers {c : ℕ} {timestamp : ℤ} {interval : Interval}
    (hone : interval.positive = false) {xs : List TimerAction} (hr : timerSystem.Run xs s) :
    ∀ ys now zs, xs = ys ++ .handleRead now :: zs → c < (ys.filterMap TimerAction.added).length →
      (xs.filterMap TimerAction.added)[c]? = some (timestamp, interval) → timestamp < now →
      ∀ e ∈ s.timers, (s.timerOf e).id ≠ c := by
  induction hr with
  | nil h =>
    intro ys now zs heq
    simp at heq
  | @snoc xs s x t hr hs ih =>
    intro ys now zs heq hc hadded hlt e he hid
    have h := kept_of_run hr
    have ht := kept_of_run (hr.snoc hs)
    -- the timer, if it is in the set, waits for its first expiration
    have hw := ht.waiting e (.inl he)
    obtain ⟨timestamp', hadded', hrun⟩ := hw.lives
    rw [hid, hadded] at hadded'
    obtain ⟨rfl, hinterval⟩ := Prod.mk.inj (Option.some.inj hadded')
    rw [← hinterval] at hrun
    have hexpiration : e.expiration = timestamp := by
      rcases runCount_of_oneShot hone hrun with ⟨hp, -⟩ | ⟨hp | hp, -⟩
      · exact TimerPhase.waiting.inj hp
      · cases hp
      · cases hp
    rcases List.eq_nil_or_concat zs with rfl | ⟨zs, z, rfl⟩
    · -- this very `HandleRead` takes it
      obtain ⟨-, hx⟩ := List.append_inj' heq rfl
      obtain rfl := List.singleton_inj.mp hx
      obtain rfl := Except.ok.inj hs.2
      have hnot := (Finset.mem_filter.mp he).2
      rw [Entry.lt_null, hexpiration] at hnot
      exact hnot hlt
    · -- it was not there before, and is not put back
      rw [List.concat_eq_append, ← List.cons_append, ← List.append_assoc] at heq
      obtain ⟨rfl, -⟩ := List.append_inj' heq rfl
      have hc' : c < ((ys ++ .handleRead now :: zs).filterMap TimerAction.added).length := by
        rw [List.filterMap_append, List.length_append]
        omega
      rw [added_append hc'] at hadded
      rcases h.carried hs he with ⟨he', hsame⟩ | hmade | hpositive
      · exact ih ys now zs rfl hc hadded hlt e he' (hsame.symm.trans hid)
      · have := h.made
        omega
      · rw [← hinterval, hone] at hpositive
        cases hpositive

/-- The callback of a timer that does not repeat is called at most once. -/
theorem runCount_le_one {xs : List TimerAction} (hr : timerSystem.Run xs s) {c : ℕ} {timestamp : ℤ}
    {interval : Interval} (hc : (xs.filterMap TimerAction.added)[c]? = some (timestamp, interval))
    (hone : interval.positive = false) : runCount (stepsOf s.log c) ≤ 1 := by
  have h := kept_of_run hr
  have hmade : c < s.made := h.made ▸ (List.getElem?_eq_some_iff.mp hc).1
  obtain ⟨timestamp', interval', p, hadded, hrun, -⟩ := h.exists_phase hmade
  rw [hc] at hadded
  obtain ⟨rfl, rfl⟩ := Prod.mk.inj (Option.some.inj hadded)
  rcases runCount_of_oneShot hone hrun with ⟨-, h⟩ | ⟨-, h⟩ <;> omega

/-- **No timer is lost, held twice or run early, and those that expire run.** A timer that was added
has lived as `timerLife` says: its callback runs after its expiration alone, and it is restarted for
the time plus its interval exactly if the callback says so. Until it is finished it is held exactly
once; outside `HandleRead` it waits in `timers_`. A timer that does not repeat runs at most once. If
callbacks return, `HandleRead` returns, and has then called the callback of each timer that it took;
one that does not repeat has been called once when a `HandleRead` that began after its expiration
has returned. -/
theorem timers_fire {xs : List TimerAction} (hr : timerSystem.Run xs s) {c : ℕ} {timestamp : ℤ}
    {interval : Interval} (hc : (xs.filterMap TimerAction.added)[c]? = some (timestamp, interval)) :
    (∃ p, (timerLife timestamp interval).Run (stepsOf s.log c) p ∧
      (p ≠ .finished → (s.held.map fun e => (s.timerOf e).id).count c = 1) ∧
      (s.phase = .idle → p = .finished ∨
        ∃ e ∈ s.timers, (s.timerOf e).id = c ∧ p = .waiting e.expiration) ∧
      (interval.positive = false → runCount (stepsOf s.log c) ≤ 1 ∧
        ∀ ys now zs, xs = ys ++ .handleRead now :: zs →
          c < (ys.filterMap TimerAction.added).length → timestamp < now →
          runCount (stepsOf s.log c) = 1 ∨ ∃ e ∈ s.phase.unrun, (s.timerOf e).id = c)) ∧
    ∀ e : timerSystem.Execution, Fair e → ∀ n, e.history n = xs → e.state n = s →
      ∃ m ≥ n, (e.state m).phase = .idle ∧
        ((∃ entry ∈ s.phase.unrun, (s.timerOf entry).id = c) →
          runCount (stepsOf s.log c) < runCount (stepsOf (e.state m).log c)) ∧
        (interval.positive = false → ∀ ys now zs, xs = ys ++ .handleRead now :: zs →
          c < (ys.filterMap TimerAction.added).length → timestamp < now →
          runCount (stepsOf (e.state m).log c) = 1) := by
  have h := kept_of_run hr
  have hlt : c < s.made := h.made ▸ (List.getElem?_eq_some_iff.mp hc).1
  obtain ⟨timestamp', interval', p, hadded, hrun, hheld, hwaits, hidle⟩ := h.exists_phase hlt
  rw [hc] at hadded
  obtain ⟨rfl, rfl⟩ := Prod.mk.inj (Option.some.inj hadded)
  have hruns : interval.positive = false → ∀ ys now zs, xs = ys ++ .handleRead now :: zs →
      c < (ys.filterMap TimerAction.added).length → timestamp < now →
      runCount (stepsOf s.log c) = 1 ∨ ∃ e ∈ s.phase.unrun, (s.timerOf e).id = c := by
    intro hone ys now zs heq hys hnow
    rcases runCount_of_oneShot hone hrun with ⟨rfl, -⟩ | ⟨-, hcount⟩
    · -- it still waits, so it is left to run
      obtain ⟨e, he, hid, -⟩ := hwaits timestamp rfl
      rcases he with he | he
      · exact absurd hid (not_mem_timers hone hr ys now zs heq hys hc hnow e he)
      · exact .inr ⟨e, he, hid⟩
    · exact .inl hcount
  refine ⟨⟨p, hrun, ?_, ?_, ?_⟩, ?_⟩
  · intro hp
    obtain ⟨e, he, hid⟩ := hheld.resolve_left hp
    exact Multiset.count_eq_one_of_mem h.ids (hid ▸ Multiset.mem_map_of_mem _ he)
  · intro hphase
    rcases hidle hphase with hp | ⟨expiration, rfl⟩
    · exact .inl hp
    · obtain ⟨e, he, hid, rfl⟩ := hwaits expiration rfl
      rw [hphase] at he
      exact .inr ⟨e, he.resolve_right List.not_mem_nil, hid, rfl⟩
  · exact fun hone => ⟨runCount_le_one hr hc hone, hruns hone⟩
  · rintro e hf n rfl rfl
    obtain ⟨m, hm, hphase, hrest⟩ := hf.runs n
    refine ⟨m, hm, hphase, hrest c, fun hone ys now zs heq hys hnow => ?_⟩
    -- once at most, and not never
    obtain ⟨more, hmore⟩ := e.history_append hm
    have hc' : ((e.history m).filterMap TimerAction.added)[c]? = some (timestamp, interval) := by
      rw [hmore, added_append (List.getElem?_eq_some_iff.mp hc).1, hc]
    have hle := runCount_le_one (e.run_history m) hc' hone
    rcases hruns hone ys now zs heq hys hnow with hran | hunrun
    · have := runCount_le e hm c
      omega
    · have := hrest c hunrun
      omega

/-! ## A run -/

theorem exists_addTimer (address : ℕ) (timestamp : ℤ) (interval : Interval) (now : ℤ)
    (hfresh : ∀ e ∈ s.held, e.timer ≠ address)
    (hp : s.phase = .idle ∨ ∃ t ran entry rest, s.phase = .inCallback t ran entry rest) :
    ∃ t, timerSystem.step s (.addTimer address timestamp interval now) t ∧ t.phase = s.phase ∧
      t.timers = Insert.insert ⟨timestamp, address⟩ s.timers ∧
      t.timer = Function.update s.timer address (.new s.made timestamp interval) := by
  obtain ⟨t, ht⟩ := exists_act s (.addTimer address timestamp interval now)
  have hok : s.addTimer address timestamp interval now = .ok t := ht
  refine ⟨t, ⟨.addTimer timestamp interval now hfresh hp, ht⟩, ?_, ?_, ?_⟩ <;> rw [addTimer_ok hok]

/-- Two timers are added for the same time, one of them repeats. `HandleRead` calls both callbacks,
and the first of them adds a timer. -/
def twoTimers : List TimerAction :=
  [.addTimer 1 5 ⟨false, 0⟩ 0, .addTimer 2 5 ⟨true, 3⟩ 1, .handleRead 10, .callNext,
    .addTimer 3 7 ⟨false, 0⟩ 10, .leaveCallback false, .callNext, .leaveCallback true, .callNext,
    .resetNext 11, .resetNext 11, .resetNext 12]

/-- The run up to the timer that the first callback adds. -/
theorem exists_run_firstCallback : ∃ s, timerSystem.Run (twoTimers.take 5) s ∧
    s.phase = .inCallback 10 [] ⟨5, 1⟩ [⟨5, 2⟩] ∧ s.timers = {⟨7, 3⟩} ∧
    ∃ made, s.timer 2 = .new made 5 ⟨true, 3⟩ := by
  obtain ⟨s₁, h₁, hp₁, ht₁, -⟩ := exists_addTimer (s := {}) 1 5 ⟨false, 0⟩ 0
    (by rintro e ⟨⟩) (.inl rfl)
  obtain ⟨s₂, h₂, hp₂, ht₂, htimer₂⟩ := exists_addTimer (s := s₁) 2 5 ⟨true, 3⟩ 1
    (by simp [held, hp₁, ht₁, HandleReadPhase.active]) (.inl hp₁)
  rw [ht₁] at ht₂
  -- `HandleRead` takes both timers
  have hexpired : (s₂.expiredTimers 10).sort (· ≤ ·) = [⟨5, 1⟩, ⟨5, 2⟩] := by
    have hset : s₂.expiredTimers 10 = {⟨5, 1⟩, ⟨5, 2⟩} := by
      rw [expiredTimers, ht₂]
      decide
    rw [hset, Finset.sort_insert _ (by decide) (by decide), Finset.sort_singleton]
  have hleft : s₂.timers.filter (¬ · < ⟨10, 0⟩) = ∅ := by
    rw [ht₂]
    decide
  obtain ⟨s₃, h₃, hp₃, ht₃, htimer₃⟩ : ∃ t, timerSystem.step s₂ (.handleRead 10) t ∧
      t.phase = .running 10 [] [⟨5, 1⟩, ⟨5, 2⟩] ∧ t.timers = ∅ ∧ t.timer = s₂.timer :=
    ⟨_, ⟨.handleRead 10 (hp₂.trans hp₁), rfl⟩, by rw [handleRead_eq, hexpired],
      by rw [handleRead_eq, hleft], by rw [handleRead_eq]⟩
  obtain ⟨s₄, h₄, hp₄, ht₄, htimer₄⟩ : ∃ t, timerSystem.step s₃ .callNext t ∧
      t.phase = .inCallback 10 [] ⟨5, 1⟩ [⟨5, 2⟩] ∧ t.timers = ∅ ∧ t.timer = s₂.timer :=
    ⟨_, ⟨.callNext hp₃, rfl⟩, by rw [callNext_cons hp₃], by rw [callNext_cons hp₃, ht₃],
      by rw [callNext_cons hp₃, htimer₃]⟩
  obtain ⟨s₅, h₅, hp₅, ht₅, htimer₅⟩ := exists_addTimer (s := s₄) 3 7 ⟨false, 0⟩ 10
    (by simp [held, hp₄, ht₄, HandleReadPhase.active]) (.inr ⟨_, _, _, _, hp₄⟩)
  rw [ht₄] at ht₅
  refine ⟨s₅, ?_, hp₅.trans hp₄, ht₅, s₁.made, ?_⟩
  · exact (((((LTS.Run.nil (M := timerSystem) rfl).snoc h₁).snoc h₂).snoc h₃).snoc h₄).snoc h₅
  · rw [htimer₅, htimer₄, htimer₂]
    rfl

theorem exists_run_twoTimers : ∃ s, timerSystem.Run twoTimers s ∧ s.phase = .idle ∧
    s.timers = {⟨14, 2⟩, ⟨7, 3⟩} := by
  obtain ⟨s₅, hrun, hp₅, ht₅, made, hnew⟩ := exists_run_firstCallback
  obtain ⟨s₆, h₆, hp₆, ht₆, htimer₆⟩ : ∃ t, timerSystem.step s₅ (.leaveCallback false) t ∧
      t.phase = .running 10 [⟨5, 1⟩] [⟨5, 2⟩] ∧ t.timers = {⟨7, 3⟩} ∧
      t.timer = Function.update s₅.timer 1 ((s₅.timer 1).run false) :=
    ⟨_, ⟨.leaveCallback false hp₅, rfl⟩, by rw [leaveCallback_eq hp₅]; rfl,
      by rw [leaveCallback_eq hp₅, ht₅], by rw [leaveCallback_eq hp₅]; rfl⟩
  -- the second callback asks for another call
  obtain ⟨s₇, h₇, hp₇, ht₇, htimer₇⟩ : ∃ t, timerSystem.step s₆ .callNext t ∧
      t.phase = .inCallback 10 [⟨5, 1⟩] ⟨5, 2⟩ [] ∧ t.timers = {⟨7, 3⟩} ∧ t.timer = s₆.timer :=
    ⟨_, ⟨.callNext hp₆, rfl⟩, by rw [callNext_cons hp₆], by rw [callNext_cons hp₆, ht₆],
      by rw [callNext_cons hp₆]⟩
  obtain ⟨s₈, h₈, hp₈, ht₈, htimer₈⟩ : ∃ t, timerSystem.step s₇ (.leaveCallback true) t ∧
      t.phase = .running 10 [⟨5, 1⟩, ⟨5, 2⟩] [] ∧ t.timers = {⟨7, 3⟩} ∧
      t.timer = Function.update s₇.timer 2 ((s₇.timer 2).run true) :=
    ⟨_, ⟨.leaveCallback true hp₇, rfl⟩, by rw [leaveCallback_eq hp₇]; rfl,
      by rw [leaveCallback_eq hp₇, ht₇], by rw [leaveCallback_eq hp₇]; rfl⟩
  obtain ⟨s₉, h₉, hp₉, ht₉, htimer₉⟩ : ∃ t, timerSystem.step s₈ .callNext t ∧
      t.phase = .resetting [] [⟨5, 1⟩, ⟨5, 2⟩] ∧ t.timers = {⟨7, 3⟩} ∧ t.timer = s₈.timer :=
    ⟨_, ⟨.callNext hp₈, rfl⟩, by rw [callNext_nil hp₈], by rw [callNext_nil hp₈, ht₈],
      by rw [callNext_nil hp₈]⟩
  -- the first timer is dropped, the second one put back
  have hfirst : (s₉.timerOf ⟨5, 1⟩).repeats = false := by
    simp [timerOf, htimer₉, htimer₈, htimer₇, htimer₆, Timer.run]
  have hsecond : s₉.timerOf ⟨5, 2⟩ = .new made 5 ⟨true, 3⟩ := by
    simp [timerOf, htimer₉, htimer₈, htimer₇, htimer₆, hnew, Timer.run, Timer.new]
  obtain ⟨s₁₀, h₁₀, hp₁₀, ht₁₀, htimer₁₀⟩ : ∃ t, timerSystem.step s₉ (.resetNext 11) t ∧
      t.phase = .resetting [⟨5, 1⟩] [⟨5, 2⟩] ∧ t.timers = {⟨7, 3⟩} ∧ t.timerOf = s₉.timerOf :=
    ⟨_, ⟨.resetNext 11 hp₉, resetNext_of_not_repeats hp₉ hfirst⟩, rfl, ht₉, rfl⟩
  obtain ⟨s₁₁, h₁₁, hp₁₁, ht₁₁⟩ : ∃ t, timerSystem.step s₁₀ (.resetNext 11) t ∧
      t.phase = .resetting [⟨5, 1⟩, ⟨5, 2⟩] [] ∧ t.timers = {⟨14, 2⟩, ⟨7, 3⟩} := by
    have hrepeats : (s₁₀.timerOf ⟨5, 2⟩).repeats = true := by rw [htimer₁₀, hsecond]; rfl
    refine ⟨_, ⟨.resetNext 11 hp₁₀, resetNext_cons hp₁₀ hrepeats⟩, rfl, ?_⟩
    dsimp only
    rw [htimer₁₀, hsecond, ht₁₀]
    rfl
  obtain ⟨s₁₂, h₁₂⟩ := exists_act s₁₁ (.resetNext 12)
  have hlast : s₁₂.phase = .idle ∧ s₁₂.timers = s₁₁.timers := by
    rcases resetNext_nil_cases hp₁₁ h₁₂ with ⟨-, rfl⟩ | ⟨entry, spec, -, -, -, rfl⟩ <;>
      exact ⟨rfl, rfl⟩
  exact ⟨s₁₂, ((((((hrun.snoc h₆).snoc h₇).snoc h₈).snoc h₉).snoc h₁₀).snoc h₁₁).snoc
    ⟨.resetNext 12 hp₁₁, h₁₂⟩, hlast.1, hlast.2.trans ht₁₁⟩

/-- **A fair execution** of two timers. -/
theorem exists_execution_twoTimers : ∃ e : timerSystem.Execution, Fair e ∧
    ∀ n, e.history n = twoTimers.take n := by
  obtain ⟨s, hrun, hidle, -⟩ := exists_run_twoTimers
  obtain ⟨e, hlabel, hstate⟩ := hrun.exists_execution
  refine ⟨e, fun n hall => ?_, fun n => ?_⟩
  · -- `HandleRead` has returned at the end
    have hphase := hall (max n twoTimers.length) (le_max_left _ _)
    rw [hstate _ (le_max_right _ _)] at hphase
    exact absurd hidle hphase
  · induction n with
    | zero => rfl
    | succ n ih => rw [e.history_succ, ih, hlabel, List.take_add_one]

/-- A timer that expires at the time 5 and does not repeat, and a `HandleRead` that begins at the
time 10: both callbacks are called before it returns. -/
theorem timers_fire_twoTimers : ∃ e : timerSystem.Execution, ∃ n m, n ≤ m ∧
    e.history n = twoTimers.take 3 ∧ (e.state m).phase = .idle ∧
    runCount (stepsOf (e.state m).log 0) = 1 := by
  obtain ⟨e, hfair, hhistory⟩ := exists_execution_twoTimers
  have hadded : ((e.history 3).filterMap TimerAction.added)[0]? = some (5, ⟨false, 0⟩) := by
    rw [hhistory]
    rfl
  obtain ⟨-, hfires⟩ := timers_fire (e.run_history 3) hadded
  obtain ⟨m, hm, hidle, -, hone⟩ := hfires e hfair 3 rfl rfl
  exact ⟨e, 3, m, hm, hhistory 3, hidle, hone rfl (twoTimers.take 2) 10 [] (hhistory 3) (by decide)
    (by decide)⟩

end TimerQueue

end CppServerStudio
