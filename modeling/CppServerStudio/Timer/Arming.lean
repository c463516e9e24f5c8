import CppServerStudio.Timer.Firing

/-!
# The timer of the kernel

`AddTimer` sets the kernel's timer only if the new timer is the earliest; otherwise what it is set
to is early enough for the new one as well. `HandleRead` leaves it as it is while callbacks add
timers, and `ResetTimers` sets it at the end for the earliest timer. So outside `HandleRead` it has
gone off, or goes off in time.

## Main results

* `TimerQueue.armed_of_run`: the invariant of every run
* `TimerQueue.never_unarmed`: a queue that holds a timer is never left unarmed
-/

namespace CppServerStudio

/-- The timer of the kernel has gone off, or goes off in time for each timer of the set. -/
def Timerfd.Covers (fd : Timerfd) (timers : Finset Entry) : Prop :=
  fd = .expired ∨ ∃ deadline armedAt, fd = .armed deadline armedAt ∧
    ∀ e ∈ timers, deadline ≤ max e.expiration (armedAt + 100)

namespace TimerQueue

variable {s t : TimerQueue}

/-- **The invariant.** -/
structure Armed (s : TimerQueue) : Prop where
  covers : s.phase = .idle → s.timers.Nonempty → s.timerfd.Covers s.timers
  armings : ∀ spec ∈ s.armings, spec.Valid ∧ spec ≠ ⟨0, 0⟩

theorem begin_eq_none (h : s.begin = none) : s.timers = ∅ := by
  unfold begin at h
  split at h
  · cases h
  · rename_i hempty
    exact Finset.not_nonempty_iff_eq_empty.mp hempty

/-- The first entry has the earliest expiration. -/
theorem begin_eq_some {entry : Entry} (h : s.begin = some entry) :
    entry ∈ s.timers ∧ ∀ e ∈ s.timers, entry.expiration ≤ e.expiration := by
  unfold begin at h
  split at h
  · rename_i hne
    obtain rfl := Option.some.inj h
    refine ⟨Finset.min'_mem _ _, fun e he => ?_⟩
    by_contra hlt
    -- an entry that expires earlier is a smaller one
    have hle : s.timers.min' hne ≤ e := Finset.min'_le _ _ he
    have hlt' : e < s.timers.min' hne := by
      change toLex (e.expiration, e.timer) < toLex _
      rw [Prod.Lex.toLex_lt_toLex]
      exact .inl (not_le.mp hlt)
    exact absurd hle (not_le.mpr hlt')
  · cases h

/-- What `ResetTimerFd` adds to the values given to `timerfd_settime` is valid. -/
theorem Armed.armings_snoc (h : s.Armed) {spec : Itimerspec} (hvalid : spec.Valid)
    (hne : spec ≠ ⟨0, 0⟩) : ∀ x ∈ s.armings ++ [spec], x.Valid ∧ x ≠ ⟨0, 0⟩ := by
  intro x hx
  rcases List.mem_append.mp hx with hx | hx
  · exact h.armings x hx
  · rw [List.mem_singleton.mp hx]
    exact ⟨hvalid, hne⟩

/-- **`AddTimer`** sets the timer of the kernel for a timer that is the earliest, and leaves it if
another one does not expire later. -/
theorem addTimer_cases {address : ℕ} {timestamp : ℤ} {interval : Interval} {now : ℤ}
    (h : s.addTimer address timestamp interval now = .ok t) :
    ((∀ e ∈ s.timers, timestamp ≤ e.expiration) ∧
      t.timerfd = .armed (max timestamp (now + 100)) now ∧
      ∃ spec : Itimerspec, spec.Valid ∧ spec ≠ ⟨0, 0⟩ ∧ t.armings = s.armings ++ [spec]) ∨
    ((∃ e ∈ s.timers, e.expiration ≤ timestamp) ∧ t.timerfd = s.timerfd ∧
      t.armings = s.armings) := by
  unfold addTimer at h
  simp only [insert, setTimer, expiration_new] at h
  split at h
  -- there was no entry, or the first one expires later
  · rename_i s' heq
    obtain ⟨hreset, rfl⟩ := Prod.mk.inj heq
    left
    obtain ⟨spec, hvalid, hne, hok⟩ := resetTimerFd_ok _ address now
    rw [hok] at h
    obtain rfl := Except.ok.inj h
    refine ⟨?_, ?_, spec, hvalid, hne, rfl⟩
    · intro e he
      split at hreset
      · rename_i hnone
        rw [begin_eq_none hnone] at he
        cases he
      · rename_i entry hsome
        have hlt := of_decide_eq_true hreset
        exact hlt.le.trans ((begin_eq_some hsome).2 e he)
    · dsimp only
      rw [expiration_new]
  -- the first entry does not expire later
  · rename_i s' heq
    obtain ⟨hreset, rfl⟩ := Prod.mk.inj heq
    right
    obtain rfl := Except.ok.inj h
    split at hreset
    · cases hreset
    · rename_i entry hsome
      have hle := of_decide_eq_false hreset
      exact ⟨⟨entry, (begin_eq_some hsome).1, not_lt.mp hle⟩, rfl, rfl⟩

theorem Armed.addTimer {address : ℕ} {timestamp : ℤ} {interval : Interval} {now : ℤ} (h : s.Armed)
    (ht : s.addTimer address timestamp interval now = .ok t) : t.Armed := by
  have htimers : t.timers = Insert.insert ⟨timestamp, address⟩ s.timers := by rw [addTimer_ok ht]
  have hphase : t.phase = s.phase := by rw [addTimer_ok ht]
  rcases addTimer_cases ht with ⟨hfirst, hfd, spec, hvalid, hne, harmings⟩ |
    ⟨⟨e₀, he₀, hle⟩, hfd, harmings⟩
  · -- the new timer is the earliest
    refine ⟨fun _ _ => .inr ⟨_, _, hfd, ?_⟩, harmings ▸ h.armings_snoc hvalid hne⟩
    intro e he
    rw [htimers, Finset.mem_insert] at he
    rcases he with rfl | he
    · exact le_rfl
    · exact max_le_max_right _ (hfirst e he)
  · refine ⟨fun hidle _ => ?_, harmings ▸ h.armings⟩
    rw [hphase] at hidle
    rw [hfd, htimers]
    rcases h.covers hidle ⟨e₀, he₀⟩ with hexpired | ⟨deadline, armedAt, harmed, hdeadline⟩
    · exact .inl hexpired
    · refine .inr ⟨deadline, armedAt, harmed, fun e he => ?_⟩
      rcases Finset.mem_insert.mp he with rfl | he
      · -- an entry of the set does not expire later
        exact (hdeadline e₀ he₀).trans (max_le_max_right _ hle)
      · exact hdeadline e he

/-- Inside `HandleRead` nothing is asked of the timer of the kernel. -/
theorem Armed.of_busy (h : s.Armed) (hphase : t.phase ≠ .idle) (harmings : t.armings = s.armings) :
    t.Armed where
  covers hidle := absurd hidle hphase
  armings := harmings ▸ h.armings

/-- **Steps** keep the invariant. -/
theorem Armed.step {added : List (ℤ × Interval)} {x : TimerAction} (h : s.Armed)
    (hk : s.Kept added) (hs : timerSystem.step s x t) : t.Armed := by
  obtain ⟨he, ha⟩ := hs
  cases he with
  | addTimer timestamp interval now hfresh hp => exact h.addTimer ha
  | expire hfd =>
    obtain rfl := Except.ok.inj ha
    exact ⟨fun _ _ => .inl rfl, h.armings⟩
  | handleRead now hp =>
    obtain rfl := Except.ok.inj ha
    rw [handleRead_eq]
    exact h.of_busy (by simp) rfl
  | @callNext now ran rest hp =>
    obtain rfl := Except.ok.inj ha
    cases rest with
    | nil =>
      rw [callNext_nil hp]
      exact h.of_busy (by simp) rfl
    | cons entry rest =>
      rw [callNext_cons hp]
      exact h.of_busy (by simp) rfl
  | leaveCallback again hp =>
    obtain rfl := Except.ok.inj ha
    rw [leaveCallback_eq hp]
    exact h.of_busy (by simp) rfl
  | @resetNext reset rest now hp =>
    change s.resetNext now = .ok t at ha
    cases rest with
    | cons entry rest =>
      -- `ResetTimers` goes on
      rcases resetNext_cons_cases hp ha with ⟨-, rfl⟩ | ⟨-, rfl⟩
      · exact h.of_busy (by simp) rfl
      · exact h.of_busy (by simp) rfl
    | nil =>
      -- `ResetTimers` ends, with an empty set or with an earliest timer
      rcases resetNext_nil_cases hp ha with
        ⟨hnone, rfl⟩ | ⟨entry, spec, hsome, hvalid, hne, rfl⟩
      · refine ⟨fun _ hne => ?_, h.armings⟩
        exact absurd (begin_eq_none hnone) hne.ne_empty
      · -- the timer of the kernel is set for the earliest one
        obtain ⟨hmem, hfirst⟩ := begin_eq_some hsome
        have hexpiration : (s.timer entry.timer).expiration = entry.expiration :=
          (hk.waiting entry (.inl hmem)).expiration_eq
        refine ⟨fun _ _ => .inr ⟨_, _, rfl, fun e he => ?_⟩, h.armings_snoc hvalid hne⟩
        rw [hexpiration]
        exact max_le_max_right _ (hfirst e he)

/-- **Every run** keeps the invariant. -/
theorem armed_of_run {xs : List TimerAction} (hr : timerSystem.Run xs s) : s.Armed := by
  induction hr with
  | nil h =>
    obtain rfl := h
    refine ⟨fun _ hne => ?_, fun spec hspec => ?_⟩
    · exact absurd rfl hne.ne_empty
    · cases hspec
  | snoc hr hs ih => exact ih.step (kept_of_run hr) hs

/-- **Never unarmed.** Outside `HandleRead`, if `timers_` has a first entry, the timer of the kernel
has gone off or is set for no later than its expiration, or 100 microseconds after it was set; and
each value it was set to is valid and not zero. -/
theorem never_unarmed {xs : List TimerAction} (hr : timerSystem.Run xs s) :
    (s.phase = .idle → ∀ entry, s.begin = some entry → s.timerfd = .expired ∨
      ∃ deadline armedAt, s.timerfd = .armed deadline armedAt ∧
        deadline ≤ max entry.expiration (armedAt + 100)) ∧
    ∀ spec ∈ s.armings, spec ≠ ⟨0, 0⟩ ∧ 0 ≤ spec.tvSec ∧ 0 ≤ spec.tvNsec ∧
      spec.tvNsec < 1000000000 := by
  have h := armed_of_run hr
  refine ⟨fun hidle entry hsome => ?_, fun spec hspec => ?_⟩
  · have hmem := (begin_eq_some hsome).1
    rcases h.covers hidle ⟨entry, hmem⟩ with hexpired | ⟨deadline, armedAt, harmed, hdeadline⟩
    · exact .inl hexpired
    · exact .inr ⟨deadline, armedAt, harmed, hdeadline entry hmem⟩
  · obtain ⟨hvalid, hne⟩ := h.armings spec hspec
    exact ⟨hne, hvalid⟩

/-- Behind a `HandleRead` that called two callbacks, the first of which added a timer: the timer of
the kernel is set for that one. -/
theorem never_unarmed_twoTimers : ∃ s, timerSystem.Run twoTimers s ∧
    s.begin = some ⟨7, 3⟩ ∧ (s.timerfd = .expired ∨
      ∃ deadline armedAt, s.timerfd = .armed deadline armedAt ∧
        deadline ≤ max 7 (armedAt + 100)) := by
  obtain ⟨s, hrun, hidle, htimers⟩ := exists_run_twoTimers
  have hbegin : s.begin = some ⟨7, 3⟩ := by
    unfold begin
    simp only [htimers]
    rfl
  exact ⟨s, hrun, hbegin, (never_unarmed hrun).1 hidle ⟨7, 3⟩ hbegin⟩

end TimerQueue

end CppServerStudio
