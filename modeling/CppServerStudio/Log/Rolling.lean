import CppServerStudio.Log.LogFile

/-!
# The log files keep the accepted bytes

While threads append and the backend writes, the files have all that was given to them, in order,
but for what the C library still holds back. A log file that is full is replaced by a stream that
appends to the same path, so that this file goes on growing.

## Main definitions

* `LogKept`: the log with its files while `mutex_` is free
* `LogDisk.Reopens`: every stream but the first one is opened on the same file

## Main results

* `LogKept.step`, `LogDisk.Reopens.step`: one step of any thread
* `logFileSystem_kept`: what the files hold along all interleavings
* `logFileSystem_grows`: how large the file becomes
-/

namespace CppServerStudio

open Scanning

/-! ## Runs -/

theorem LogState.flatten_batch (s : LogState) : s.batch.flatten = s.logging.contents := by
  rw [LogState.batch, ← List.flatMap_def]
  rfl

theorem LogState.batch_ne_nil (s : LogState) : s.batch ≠ [] := by simp [LogState.batch]

/-- **The log with its files** while `mutex_` is free: there is a log file while the backend is in
its loop. -/
structure LogKept (files₀ : Files Bytes Byte) (s : LogState) (k : LogDisk) : Prop where
  flowing : s.Flowing
  holds : k.Holds files₀ s.written
  hasRoom : k.HasRoom
  logfile : k.logfile ≠ none ↔ s.backend.phase ≠ .unstarted ∧ s.backend.phase ≠ .ended
  unstarted : s.backend.phase = .unstarted → k.streams = []

namespace LogKept

variable {files₀ : Files Bytes Byte} {s t : LogState} {k k' : LogDisk} {filepath : Option Bytes}
  {env : BackendEnv}

/-- A step that neither writes nor moves the backend. -/
theorem congr (h : LogKept files₀ s k) (ht : t.Flowing) (hwritten : t.written = s.written)
    (hphase : t.backend.phase = s.backend.phase) : LogKept files₀ t k where
  flowing := ht
  holds := hwritten ▸ h.holds
  hasRoom := h.hasRoom
  logfile := hphase ▸ h.logfile
  unstarted := hphase ▸ h.unstarted

/-- A step of the backend inside its loop. -/
theorem setPhase (h : LogKept files₀ s k) {phase : BackendPhase}
    (hbefore : s.backend.phase ≠ .unstarted ∧ s.backend.phase ≠ .ended)
    (hafter : phase ≠ .unstarted ∧ phase ≠ .ended) : LogKept files₀ (s.setPhase phase) k where
  flowing := h.flowing.setPhase phase
  holds := h.holds
  hasRoom := h.hasRoom
  logfile := iff_of_true (h.logfile.mpr hbefore) hafter
  unstarted := fun hphase => absurd hphase hafter.1

/-- **A turn of the backend.** -/
theorem turn (h : LogKept files₀ s k) (hs : s.turn = .ok t)
    (hk : k.turn filepath s.batch env = some k') : LogKept files₀ t k' := by
  obtain ⟨t', ht', hflowing, hphase, hwritten, -⟩ := h.flowing.turn
  obtain rfl := Except.ok.inj (ht'.symm.trans hs)
  obtain ⟨hholds, hroom, hsome⟩ := h.holds.turn s.batch_ne_nil hk
  -- the batch is what was copied and not yet written
  rw [s.flatten_batch, h.flowing.bytes, ← hwritten] at hholds
  refine ⟨hflowing, hholds, hroom, iff_of_true hsome ?_, fun hno => ?_⟩
  · rw [hphase]
    decide
  · rw [hphase] at hno
    cases hno

/-- **One step** of any thread. -/
theorem step (h : LogKept files₀ s k) {e : LogStep × BackendEnv}
    (hstep : (logFileSystem filepath files₀).step (s, k) e (t, k')) : LogKept files₀ t k' := by
  obtain ⟨⟨henabled, hact⟩, hdisk⟩ := hstep
  obtain ⟨t', hact', hflowing⟩ := h.flowing.act e.1
  obtain rfl := Except.ok.inj (hact'.symm.trans hact)
  obtain ⟨e, env⟩ := e
  cases e with
  | start =>
    obtain rfl := Except.ok.inj hact
    obtain rfl := Option.some.inj hdisk
    have hnone : k.logfile = none := by
      by_contra hsome
      exact (h.logfile.mp hsome).1 henabled
    obtain ⟨hcreate, hroom⟩ := h.holds.create hnone (by rw [h.unstarted henabled]; simp) none
      env.opening
    refine ⟨hflowing, hcreate, hroom, iff_of_true (Option.some_ne_none _) ⟨?_, ?_⟩, ?_⟩
    · rintro ⟨⟩
    · rintro ⟨⟩
    · rintro ⟨⟩
  | append data =>
    obtain rfl := Option.some.inj hdisk
    rw [LogState.act] at hact
    obtain ⟨⟨logging, m⟩, -, hact⟩ := bind_eq_ok.mp hact
    obtain rfl := Except.ok.inj hact
    exact h.congr hflowing rfl rfl
  | callStop | clearRunning | join =>
    obtain rfl := Except.ok.inj hact
    obtain rfl := Option.some.inj hdisk
    exact h.congr hflowing rfl rfl
  | test =>
    have hbefore : s.backend.phase ≠ .unstarted ∧ s.backend.phase ≠ .ended := by
      have htop : s.backend.phase = .top := henabled
      rw [htop]
      decide
    obtain rfl := Except.ok.inj hact
    obtain rfl := Option.some.inj hdisk
    cases hrunning : s.running with
    | true => exact h.setPhase hbefore (by decide)
    | false =>
      -- the backend returns
      obtain ⟨hdestroy, hnone, hstreams⟩ := h.holds.destroy
      refine ⟨h.flowing.setPhase .ended, hdestroy, ?_, ?_, by rintro ⟨⟩⟩
      · simp only [Bool.false_eq_true, if_false]
        rw [LogDisk.HasRoom, hstreams]
        exact h.hasRoom
      · exact iff_of_false (not_not.mpr hnone) (fun hloop => hloop.2 rfl)
  | lock =>
    have hbefore : s.backend.phase ≠ .unstarted ∧ s.backend.phase ≠ .ended := by
      have htested : s.backend.phase = .tested := henabled
      rw [htested]
      decide
    rw [LogState.act] at hact
    rw [LogDisk.act] at hdisk
    split at hact
    · rename_i hempty
      rw [if_pos hempty] at hdisk
      obtain rfl := Except.ok.inj hact
      obtain rfl := Option.some.inj hdisk
      exact h.setPhase hbefore (by decide)
    · rename_i hempty
      rw [if_neg hempty] at hdisk
      exact h.turn hact hdisk
  | timeout => exact h.turn hact hdisk

theorem of_run {steps : List (LogStep × BackendEnv)} {p : LogState × LogDisk}
    (hrun : (logFileSystem filepath files₀).Run steps p) : LogKept files₀ p.1 p.2 := by
  refine hrun.invariant (I := fun p => LogKept files₀ p.1 p.2) ?_ fun p e q hp hstep =>
    hp.step hstep
  rintro ⟨s, k⟩ ⟨rfl, rfl⟩
  refine ⟨flowing_init, ⟨fun _ => rfl, rfl, ?_, ?_, ?_, ?_⟩, ?_, ?_, fun _ => rfl⟩
  · rintro _ ⟨⟩
  · rintro _ ⟨⟩
  · rintro _ ⟨⟩
  · rintro _ ⟨⟩
  · rintro _ ⟨⟩
  · exact iff_of_false (fun h => h rfl) (fun h => h.1 rfl)

end LogKept

/-- **The files keep the accepted bytes in order**: along every interleaving, whatever the C library
takes of each write and holds back, each file has what it had at first and what was given to the
streams that were opened on it, but for what the log file holds back; the bytes given to all streams
in turn, and those of the buffers, are all that was copied. Every stream but the last has as much as
a file may have, and the last one less. What is held back was given at most `flushInterval` behind
the last flush, and nothing is once the backend has returned. -/
theorem logFileSystem_kept {filepath : Option Bytes} {files₀ : Files Bytes Byte}
    {steps : List (LogStep × BackendEnv)} {s : LogState} {k : LogDisk}
    (hrun : (logFileSystem filepath files₀).Run steps (s, k)) :
    (∀ path, k.files path ++ k.heldFrom path = files₀ path ++ k.givenTo path) ∧
    k.streams.flatMap Prod.snd ++ s.logging.contents = copiedBytes s.appended ∧
    (∀ stream ∈ k.streams.dropLast, fileMaximumSize ≤ stream.2.length) ∧
    (∀ stream ∈ k.streams.getLast?, stream.2.length < fileMaximumSize) ∧
    (∀ f, k.logfile = some f → f.fp.held = [] ∨ f.lastwrite - f.lastflush ≤ flushInterval) ∧
    (s.backend.phase = .ended → ∀ path, k.files path = files₀ path ++ k.givenTo path) := by
  have h := LogKept.of_run hrun
  refine ⟨h.holds.files, ?_, h.holds.full, h.hasRoom, h.holds.late, fun hended path => ?_⟩
  · rw [h.holds.written]
    exact h.flowing.bytes
  · have hnone : k.logfile = none := by
      by_contra hsome
      exact (h.logfile.mp hsome).2 hended
    have hfiles := h.holds.files path
    rwa [LogDisk.heldFrom_of_none hnone, List.append_nil] at hfiles

/-! ## The file that is opened again -/

namespace LogDisk

variable {k k' : LogDisk} {path : Bytes}

/-- Every stream but the first one is opened on this file. -/
def Reopens (k : LogDisk) (path : Bytes) : Prop := ∀ p ∈ (k.streams.map Prod.fst).tail, p = path

theorem destroy_streams (k : LogDisk) :
    k.destroy.streams = k.streams ∧ k.destroy.logfile = none := by
  cases hf : k.logfile with
  | none =>
    rw [destroy, hf]
    exact ⟨rfl, hf⟩
  | some f =>
    rw [destroy, hf]
    exact ⟨List.append_nil _, rfl⟩

/-- A file that is full is opened again. -/
theorem Reopens.create (h : k.Reopens path) (hnone : k.logfile = none) {env : OpenEnv}
    (hopens : env.opens = true) : (k.create (some path) env).Reopens path := by
  have hstreams : (k.create (some path) env).streams = k.streams ++ [(path, [])] := by
    rw [streams_of_none hnone, LogDisk.create, streams_of_some rfl]
    simp [LogFile.create, hopens]
  rw [Reopens, hstreams, List.map_append]
  rcases hold : k.streams.map Prod.fst with _ | ⟨first, rest⟩
  · intro p hp
    cases hp
  · rw [Reopens, hold] at h
    intro p hp
    rcases List.mem_append.mp (show p ∈ rest ++ [path] from hp) with hp | hp
    · exact h p hp
    · exact List.mem_singleton.mp hp

theorem Reopens.turn (h : k.Reopens path) {batch : List Bytes} {env : BackendEnv}
    (hopens : env.opening.opens = true) (hturn : k.turn (some path) batch env = some k') :
    k'.Reopens path := by
  rw [LogDisk.turn] at hturn
  obtain ⟨f, hf, hturn⟩ := Option.bind_eq_some_iff.mp hturn
  obtain ⟨⟨f', files⟩, hwrite, hturn⟩ := Option.bind_eq_some_iff.mp hturn
  -- a batch goes to the stream that is open
  have hwritten : Reopens { k with
      files := files, logfile := some f', given := k.given ++ batch.flatten } path := by
    have hpath : f'.fp.path = f.fp.path := (LogFile.carries_writeBuffers hwrite).1.path
    rw [Reopens, streams_of_some hf, List.map_append] at h
    rw [Reopens, streams_of_some rfl, List.map_append, List.map_singleton, hpath]
    exact h
  dsimp only at hturn
  split at hturn
  · obtain rfl := Option.some.inj hturn
    obtain ⟨hstreams, hnone⟩ := destroy_streams
      { k with files := files, logfile := some f', given := k.given ++ batch.flatten }
    rw [Reopens, ← hstreams] at hwritten
    exact Reopens.create hwritten hnone hopens
  · obtain rfl := Option.some.inj hturn
    exact hwritten

/-- Streams that are full. -/
theorem le_length_flatMap {streams : List (Bytes × Bytes)}
    (h : ∀ stream ∈ streams, fileMaximumSize ≤ stream.2.length) :
    streams.length * fileMaximumSize ≤ (streams.flatMap Prod.snd).length := by
  induction streams with
  | nil => simp
  | cons stream streams ih =>
    rw [List.forall_mem_cons] at h
    have hrest := ih h.2
    rw [List.flatMap_cons, List.length_append, List.length_cons, Nat.succ_mul]
    omega

/-- The streams behind the first one, if they are full and opened on the same file. -/
theorem le_length_filter {streams : List (Bytes × Bytes)}
    (hpath : ∀ p ∈ (streams.map Prod.fst).tail, p = path)
    (hfull : ∀ stream ∈ streams, fileMaximumSize ≤ stream.2.length) :
    (streams.length - 1) * fileMaximumSize ≤
      ((streams.filter fun stream => stream.1 = path).flatMap Prod.snd).length := by
  rcases streams with _ | ⟨first, rest⟩
  · simp
  · have hfilter : rest.filter (fun stream => stream.1 = path) = rest :=
      List.filter_eq_self.mpr fun stream hmem => by
        simpa using hpath stream.1 (List.mem_map_of_mem hmem)
    have hrest := le_length_flatMap (List.forall_mem_cons.mp hfull).2
    rw [List.filter_cons, hfilter]
    split
    · rw [List.flatMap_cons, List.length_append]
      exact hrest.trans (Nat.le_add_left _ _)
    · exact hrest

/-- The streams of the file between the first and the last one are full, and no more is held back
than was given to the last one. -/
theorem Reopens.le_givenTo (h : k.Reopens path)
    (hfull : ∀ stream ∈ k.streams.dropLast, fileMaximumSize ≤ stream.2.length)
    (hheld : ∀ f, k.logfile = some f → f.fp.held.length ≤ k.given.length) :
    (k.streams.length - 2) * fileMaximumSize + (k.heldFrom path).length ≤
      (k.givenTo path).length := by
  rcases List.eq_nil_or_concat k.streams with hnil | ⟨streams, last, hstreams⟩
  · have hnone : k.logfile = none := by
      by_contra hsome
      obtain ⟨f, hf⟩ := Option.ne_none_iff_exists'.mp hsome
      rw [streams_of_some hf] at hnil
      simp at hnil
    rw [hnil, heldFrom_of_none hnone]
    simp
  · rw [List.concat_eq_append] at hstreams
    rw [hstreams, List.dropLast_concat] at hfull
    have hpath : ∀ p ∈ (streams.map Prod.fst).tail, p = path := by
      intro p hp
      refine h p ?_
      rw [hstreams, List.map_append]
      rcases streams with _ | ⟨first, rest⟩
      · cases hp
      · exact List.mem_append_left _ hp
    have hlast : (k.heldFrom path).length ≤ (if last.1 = path then last.2 else []).length := by
      cases hf : k.logfile with
      | none =>
        rw [heldFrom_of_none hf]
        exact Nat.zero_le _
      | some f =>
        rw [streams_of_some hf] at hstreams
        obtain ⟨-, hlast⟩ := List.append_inj' hstreams rfl
        obtain rfl := List.singleton_inj.mp hlast
        rw [heldFrom_of_some hf]
        dsimp only
        split
        · exact hheld f hf
        · exact le_rfl
    have hbefore := le_length_filter hpath hfull
    rw [givenTo, hstreams, givenTo_append, List.length_append, List.length_append,
      List.length_singleton]
    exact Nat.add_le_add hbefore hlast

end LogDisk

/-- **One step** opens no other file. -/
theorem LogDisk.Reopens.step {s t : LogState} {k k' : LogDisk} {path : Bytes}
    {files₀ : Files Bytes Byte} {e : LogStep × BackendEnv} (h : k.Reopens path)
    (hkept : LogKept files₀ s k) (hopens : e.2.opening.opens = true)
    (hstep : (logFileSystem (some path) files₀).step (s, k) e (t, k')) : k'.Reopens path := by
  obtain ⟨⟨henabled, -⟩, hdisk⟩ := hstep
  obtain ⟨e, env⟩ := e
  cases e with
  | start =>
    obtain rfl := Option.some.inj hdisk
    -- the first file
    have hdone : k.done = [] := by
      have hnone := hkept.unstarted henabled
      rw [streams, List.append_eq_nil_iff] at hnone
      exact hnone.1
    rw [Reopens, LogDisk.create, streams_of_some rfl, hdone]
    intro p hp
    cases hp
  | append | callStop | clearRunning | join =>
    obtain rfl := Option.some.inj hdisk
    exact h
  | test =>
    obtain rfl := Option.some.inj hdisk
    dsimp only
    split
    · exact h
    · rw [Reopens, (destroy_streams k).1]
      exact h
  | lock =>
    rw [act] at hdisk
    split at hdisk
    · obtain rfl := Option.some.inj hdisk
      exact h
    · exact h.turn hopens hdisk
  | timeout => exact h.turn hopens hdisk

/-! ## Runs with many streams -/

/-- A step in which nothing is written. -/
def noWrites : BackendEnv := ⟨[], ⟨true, []⟩⟩

section ManyStreams

variable {filepath : Option Bytes} {files₀ : Files Bytes Byte} {steps : List (LogStep × BackendEnv)}
  {s t : LogState} {k : LogDisk} {f : LogFile}

/-- **Bytes can be appended**, one or two at a time, unless they just fit. -/
theorem LogState.Flowing.exists_append (h : s.Flowing) : ∃ data t,
    s.act (.append data) = .ok t ∧ t.backend = s.backend ∧ t.running = s.running ∧
      s.logging.contents.length < t.logging.contents.length := by
  obtain ⟨current, hcurrent⟩ := Option.ne_none_iff_exists'.mp h.logging.current
  obtain ⟨data, hdata, hne, hroom⟩ : ∃ data : Bytes, data.length < fixedLargeBufferSize ∧
      data ≠ [] ∧ data.length ≠ current.avail := by
    by_cases hone : current.avail = 1
    · exact ⟨ofString "aa", by decide, by decide, by rw [hone]; decide⟩
    · exact ⟨ofString "a", by decide, by decide, Ne.symm hone⟩
  obtain ⟨a', m, happend, -, -, hcontents, hcopied⟩ := h.logging.append data
  have hcopies : m.copied = true := by
    refine (hcopied hdata).mpr ?_
    rwa [AsyncLogging.room_append hcurrent happend]
  rw [if_pos hcopies] at hcontents
  refine ⟨data, { s with logging := a', appended := s.appended ++ [m] }, ?_, rfl, rfl, ?_⟩
  · rw [LogState.act, happend, ok_bind]
  rw [hcontents, List.length_append]
  exact Nat.lt_add_of_pos_right (List.length_pos_iff.mpr hne)

/-- As many bytes as one likes can be appended. -/
theorem exists_appends (hrun : (logFileSystem filepath files₀).Run steps (s, k)) (n : ℕ) :
    ∃ more t, (logFileSystem filepath files₀).Run (steps ++ more) (t, k) ∧
      (∀ e ∈ more, e.2.opening.opens = true) ∧ t.backend = s.backend ∧ t.running = s.running ∧
      n ≤ t.logging.contents.length := by
  induction n with
  | zero => exact ⟨[], s, by rwa [List.append_nil], by simp, rfl, rfl, Nat.zero_le _⟩
  | succ n ih =>
    obtain ⟨more, t, hrun', hopens, hbackend, hrunning, hle⟩ := ih
    obtain ⟨data, u, hact, hbackend', hrunning', hlt⟩ :=
      (LogKept.of_run hrun').flowing.exists_append
    refine ⟨more ++ [(.append data, noWrites)], u, ?_, ?_, hbackend'.trans hbackend,
      hrunning'.trans hrunning, hle.trans_lt hlt⟩
    · rw [← List.append_assoc]
      exact hrun'.snoc ⟨⟨trivial, hact⟩, rfl⟩
    · rw [List.forall_mem_append, List.forall_mem_singleton]
      exact ⟨hopens, rfl⟩

/-- A turn with as many bytes as a file may have opens another stream. -/
theorem LogDisk.exists_turn (hf : k.logfile = some f) (filepath : Option Bytes)
    {batch : List Bytes} (hfull : fileMaximumSize ≤ batch.flatten.length) :
    ∃ env k', env.opening.opens = true ∧ k.turn filepath batch env = some k' ∧
      k'.streams.length = k.streams.length + 1 := by
  obtain ⟨envs, f', files, hwrite⟩ := f.exists_writeBuffers k.files batch
  obtain ⟨-, hcount, -⟩ := LogFile.carries_writeBuffers hwrite
  have hmax : fileMaximumSize ≤ f'.writtenBytes := by omega
  -- the files with the batch
  obtain ⟨k₁, hk₁⟩ : ∃ k₁ : LogDisk, k₁ = { k with
    files := files, logfile := some f', given := k.given ++ batch.flatten } := ⟨_, rfl⟩
  have hstreams₁ : k₁.streams.length = k.streams.length := by
    rw [streams_of_some hf, hk₁, streams_of_some rfl, List.length_append, List.length_append]
    rfl
  refine ⟨⟨envs, ⟨true, []⟩⟩, k₁.destroy.create filepath ⟨true, []⟩, rfl, ?_, ?_⟩
  · rw [turn, hf]
    simp only [Option.bind_eq_bind, Option.bind_some, hwrite, if_pos hmax, hk₁]
  · obtain ⟨hstreams, hnone⟩ := k₁.destroy_streams
    rw [LogDisk.create, streams_of_some rfl, List.length_append]
    rw [streams_of_none hnone] at hstreams
    rw [hstreams, hstreams₁]
    rfl

/-- **The log can always go on to one more stream.** -/
theorem exists_roll (hrun : (logFileSystem filepath files₀).Run steps (s, k))
    (hphase : s.backend.phase = .top) (hrunning : s.running = true) :
    ∃ more t k', (logFileSystem filepath files₀).Run (steps ++ more) (t, k') ∧
      (∀ e ∈ more, e.2.opening.opens = true) ∧ t.backend.phase = .top ∧ t.running = true ∧
      k'.streams.length = k.streams.length + 1 := by
  obtain ⟨appends, s₁, hrun₁, hopens₁, hbackend₁, hrunning₁, hle⟩ :=
    exists_appends hrun fileMaximumSize
  have hkept := LogKept.of_run hrun₁
  have hphase₁ : s₁.backend.phase = .top := hbackend₁ ▸ hphase
  obtain ⟨f, hf⟩ := Option.ne_none_iff_exists'.mp (hkept.logfile.mpr (by rw [hphase₁]; decide))
  have hfull : fileMaximumSize ≤ s₁.batch.flatten.length := by rwa [s₁.flatten_batch]
  obtain ⟨env, k', hopens, hturn, hlength⟩ := LogDisk.exists_turn hf filepath hfull
  have hrunning₁ := hrunning₁.trans hrunning
  -- the backend tests `running_`
  have htest : (logFileSystem filepath files₀).Run (steps ++ appends ++ [(.test, noWrites)])
      (s₁.setPhase .tested, k) := by
    refine hrun₁.snoc ⟨⟨hphase₁, ?_⟩, ?_⟩
    · rw [LogState.act, hrunning₁]
      rfl
    · rw [LogDisk.act, hrunning₁]
      rfl
  -- it takes the buffers at once, or after a wait
  cases hempty : s₁.logging.buffers.isEmpty with
  | false =>
    obtain ⟨t, ht, -, htop, -, -, -, hrun', -⟩ := (hkept.flowing.setPhase .tested).turn
    refine ⟨appends ++ [(.test, noWrites)] ++ [(.lock, env)], t, k', ?_, ?_, htop,
      hrun'.trans hrunning₁, hlength⟩
    · rw [← List.append_assoc, ← List.append_assoc]
      have hnot : ¬ s₁.logging.buffers.isEmpty = true := ne_true_of_eq_false hempty
      exact htest.snoc ⟨⟨rfl, (if_neg hnot).trans ht⟩, (if_neg hnot).trans hturn⟩
    · simp only [List.forall_mem_append, List.forall_mem_singleton]
      exact ⟨⟨hopens₁, rfl⟩, hopens⟩
  | true =>
    have hwait : (logFileSystem filepath files₀).Run
        (steps ++ appends ++ [(.test, noWrites)] ++ [(.lock, noWrites)])
        (s₁.setPhase .waiting, k) :=
      htest.snoc ⟨⟨rfl, if_pos hempty⟩, if_pos hempty⟩
    obtain ⟨t, ht, -, htop, -, -, -, hrun', -⟩ := (hkept.flowing.setPhase .waiting).turn
    refine ⟨appends ++ [(.test, noWrites)] ++ [(.lock, noWrites)] ++ [(.timeout, env)], t, k', ?_,
      ?_, htop, hrun'.trans hrunning₁, hlength⟩
    · rw [← List.append_assoc, ← List.append_assoc, ← List.append_assoc]
      exact hwait.snoc ⟨⟨rfl, ht⟩, hturn⟩
    · simp only [List.forall_mem_append, List.forall_mem_singleton]
      exact ⟨⟨⟨hopens₁, rfl⟩, rfl⟩, hopens⟩

/-- **Any number of streams** may be opened. -/
theorem exists_run_streams (filepath : Option Bytes) (files₀ : Files Bytes Byte) (n : ℕ) :
    ∃ steps s k, (logFileSystem filepath files₀).Run steps (s, k) ∧
      (∀ e ∈ steps, e.2.opening.opens = true) ∧ s.backend.phase = .top ∧ s.running = true ∧
      k.streams.length = n + 1 := by
  induction n with
  | zero =>
    have hinit : (logFileSystem filepath files₀).Run [] ({}, { files := files₀ }) := .nil ⟨rfl, rfl⟩
    exact ⟨[(.start, noWrites)], _, _, hinit.snoc ⟨⟨rfl, rfl⟩, rfl⟩, by simp [noWrites], rfl, rfl,
      rfl⟩
  | succ n ih =>
    obtain ⟨steps, s, k, hrun, hopens, hphase, hrunning, hlength⟩ := ih
    obtain ⟨more, t, k', hrun', hopens', hphase', hrunning', hlength'⟩ :=
      exists_roll hrun hphase hrunning
    refine ⟨steps ++ more, t, k', hrun', ?_, hphase', hrunning', by rw [hlength', hlength]⟩
    exact List.forall_mem_append.mpr ⟨hopens, hopens'⟩

end ManyStreams

/-- Behind a first stream that is full, a second one has been opened. -/
theorem logFileSystem_kept_two : ∃ steps s k,
    (logFileSystem none fun _ => []).Run steps (s, k) ∧ k.streams.length = 2 ∧
    k.streams.flatMap Prod.snd ++ s.logging.contents = copiedBytes s.appended ∧
    ∀ stream ∈ k.streams.dropLast, fileMaximumSize ≤ stream.2.length := by
  obtain ⟨steps, s, k, hrun, -, -, -, hlength⟩ := exists_run_streams none (fun _ => []) 1
  obtain ⟨-, hbytes, hfull, -⟩ := logFileSystem_kept hrun
  exact ⟨steps, s, k, hrun, hlength, hbytes, hfull⟩

/-- **No file is ever given up**: a file that has reached its maximum size is opened again, and
appended to. In every run in which it can be opened, it has as many times the maximum size as there
were streams between the first and the last one. -/
theorem logFileSystem_grows {path : Bytes} {files₀ : Files Bytes Byte}
    {steps : List (LogStep × BackendEnv)} {s : LogState} {k : LogDisk}
    (hrun : (logFileSystem (some path) files₀).Run steps (s, k))
    (hopens : ∀ e ∈ steps, e.2.opening.opens = true) :
    (∀ p ∈ (k.streams.map Prod.fst).tail, p = path) ∧
    (k.streams.length - 2) * fileMaximumSize ≤ (k.files path).length := by
  have hreopens : k.Reopens path := by
    refine hrun.history (I := fun steps p => (∀ e ∈ steps, e.2.opening.opens = true) →
      LogKept files₀ p.1 p.2 ∧ p.2.Reopens path) ?_ ?_ hopens |>.2
    · intro p hp _
      refine ⟨LogKept.of_run (.nil hp), ?_⟩
      rw [hp.2]
      rintro _ ⟨⟩
    · rintro steps ⟨s, k⟩ e ⟨t, k'⟩ ih hstep hall
      rw [List.forall_mem_append, List.forall_mem_singleton] at hall
      obtain ⟨hkept, h⟩ := ih hall.1
      exact ⟨hkept.step hstep, h.step hkept hall.2 hstep⟩
  have hholds : k.Holds files₀ s.written := (LogKept.of_run hrun).holds
  refine ⟨hreopens, ?_⟩
  -- what is held back was given to the last stream
  have hgiven := hreopens.le_givenTo hholds.full hholds.held
  have hfiles := congrArg List.length (hholds.files path)
  rw [List.length_append, List.length_append] at hfiles
  omega

/-- The third stream is opened on the same path, which has got as much as a file may have. -/
theorem logFileSystem_grows_three : ∃ steps s k,
    (logFileSystem (some (ofString "log")) fun _ => []).Run steps (s, k) ∧
    k.streams.length = 3 ∧ (∀ p ∈ (k.streams.map Prod.fst).tail, p = ofString "log") ∧
    fileMaximumSize ≤ (k.files (ofString "log")).length := by
  obtain ⟨steps, s, k, hrun, hopens, -, -, hlength⟩ :=
    exists_run_streams (some (ofString "log")) (fun _ => []) 2
  obtain ⟨hreopens, hgrows⟩ := logFileSystem_grows hrun hopens
  rw [hlength, Nat.one_mul] at hgrows
  exact ⟨steps, s, k, hrun, hlength, hreopens, hgrows⟩

end CppServerStudio
