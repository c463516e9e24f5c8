import CppServerStudio.Library.OutStreams
import CppServerStudio.Log.Accepted

/-!
# Log files

The backend writes its buffers to a log file, and goes on with a new one when that has reached its
maximum size. A log file is a stream of the C library, which holds bytes back until it is flushed.
What the library takes of each write, and how much of it goes to the file by itself, is not known.
Two failures are left out: one of the two files that a constructor tries can be opened, so `fp_` is
not null, and `fflush` does not fail, so nothing is held back behind it. The destructor closes no
stream: its test is the wrong way round.

## Main definitions

* `LogFile`, with `LogFile.create`, `LogFile.write`, `LogFile.destroy`: a log file
* `LogDisk`: the files, the log file of the backend, and the streams that were opened
* `LogDisk.turn`, `logFileSystem`: the files in a turn of the backend, and in all interleavings
* `LogDisk.Holds`: the files hold what was given to the streams

## Main results

* `LogFile.carries_write`: one `Write`
* `LogDisk.Holds.destroy`, `LogDisk.Holds.create`: the end and the start of a log file
* `LogDisk.Holds.turn`: a turn of the backend
-/

namespace CppServerStudio

open Scanning

/-- `FlushInterval`, in seconds. -/
def flushInterval : ℤ := 3
def fileMaximumSize : ℕ := 1024 * 1024 * 1024

/-- A log file. -/
structure LogFile where
  fp : OutStream Bytes Byte
  writtenBytes : ℕ := 0
  lastwrite : ℤ := 0
  lastflush : ℤ := 0

/-- What a constructor takes from outside: whether the file that it is given can be opened, and the
time in the name of the other one, which can be opened if that file cannot. -/
structure OpenEnv where
  opens : Bool
  now : Bytes

/-- What a `Write` takes from outside: the results of its calls of `fwrite_unlocked`, and the
time. -/
structure WriteEnv where
  results : List WriteResult
  now : ℤ

namespace LogFile

/-- The file that is opened when the other one cannot be. -/
def defaultPath (now : Bytes) : Bytes := ofString "../LogFiles/LogFile_" ++ now ++ ofString ".log"

/-- **The constructor**: no file is opened by a null pointer. -/
def create (filepath : Option Bytes) (env : OpenEnv) : LogFile :=
  match filepath with
  | none => ⟨⟨defaultPath env.now, []⟩, 0, 0, 0⟩
  | some path => ⟨⟨if env.opens then path else defaultPath env.now, []⟩, 0, 0, 0⟩

/-- **`Write`**, if its loop ends. -/
def write (f : LogFile) (d : Files Bytes Byte) (data : Bytes) (env : WriteEnv) :
    Option (LogFile × Files Bytes Byte) := do
  let (fp, d) ← f.fp.writeAll d data env.results
  let f := { f with fp := fp }
  let f := if data.length ≠ 0 then
    { f with lastwrite := env.now, writtenBytes := f.writtenBytes + data.length } else f
  if f.lastwrite - f.lastflush > flushInterval then
    let (fp, d) := f.fp.flush d
    some ({ f with fp := fp, lastflush := env.now }, d)
  else some (f, d)

/-- **The destructor** flushes the stream, and closes it only if there is none. -/
def destroy (f : LogFile) (d : Files Bytes Byte) : Files Bytes Byte := (f.fp.flush d).2

/-- `Write` on each buffer of a batch. -/
def writeBuffers : LogFile → Files Bytes Byte → List Bytes → List WriteEnv →
    Option (LogFile × Files Bytes Byte)
  | f, d, [], [] => some (f, d)
  | f, d, data :: batch, env :: envs => do
    let (f, d) ← f.write d data env
    writeBuffers f d batch envs
  | _, _, _, _ => none

variable {f f' : LogFile} {d d' : Files Bytes Byte} {data : Bytes}

/-- **One `Write`** gives its data to the file, counts it, and leaves no byte for longer than the
interval behind the last flush. -/
theorem carries_write {env : WriteEnv} (h : f.write d data env = some (f', d')) :
    f.fp.Carries d data f'.fp d' ∧ f'.writtenBytes = f.writtenBytes + data.length ∧
      (f'.fp.held = [] ∨ f'.lastwrite - f'.lastflush ≤ flushInterval) := by
  rw [write] at h
  obtain ⟨⟨fp, d₁⟩, hall, h⟩ := Option.bind_eq_some_iff.mp h
  have hcarries := OutStream.carries_writeAll hall
  obtain ⟨f₁, hf₁⟩ : ∃ f₁ : LogFile, f₁ = if data.length ≠ 0 then
      { f with fp := fp, lastwrite := env.now, writtenBytes := f.writtenBytes + data.length }
      else { f with fp := fp } := ⟨_, rfl⟩
  have hfp : f₁.fp = fp := by
    rw [hf₁]
    split <;> rfl
  have hcount : f₁.writtenBytes = f.writtenBytes + data.length := by
    rw [hf₁]
    split
    · rfl
    · rename_i hzero
      rw [not_not.mp hzero]
      rfl
  simp only [← hf₁] at h
  split at h
  · obtain ⟨rfl, rfl⟩ := Prod.mk.inj (Option.some.inj h)
    rw [hfp]
    have hflush := hcarries.trans (OutStream.carries_flush fp d₁)
    rw [List.append_nil] at hflush
    exact ⟨hflush, hcount, .inl (OutStream.held_flush fp d₁)⟩
  · rename_i hlate
    obtain ⟨rfl, rfl⟩ := Prod.mk.inj (Option.some.inj h)
    exact ⟨hfp ▸ hcarries, hcount, .inr (not_lt.mp hlate)⟩

/-- **A batch** is given to the file in order. -/
theorem carries_writeBuffers {batch : List Bytes} {envs : List WriteEnv}
    (h : f.writeBuffers d batch envs = some (f', d')) :
    f.fp.Carries d batch.flatten f'.fp d' ∧
      f'.writtenBytes = f.writtenBytes + batch.flatten.length ∧
      (batch = [] ∨ f'.fp.held = [] ∨ f'.lastwrite - f'.lastflush ≤ flushInterval) := by
  -- Induction on the buffers.
  induction batch generalizing f d envs with
  | nil =>
    cases envs with
    | nil =>
      obtain ⟨rfl, rfl⟩ := Prod.mk.inj (Option.some.inj h)
      exact ⟨.refl f.fp d, rfl, .inl rfl⟩
    | cons env envs => cases h
  | cons data batch ih =>
    cases envs with
    | nil => cases h
    | cons env envs =>
      rw [writeBuffers] at h
      obtain ⟨⟨f₁, d₁⟩, hwrite, h⟩ := Option.bind_eq_some_iff.mp h
      obtain ⟨hcarries₁, hcount₁, hlate₁⟩ := carries_write hwrite
      obtain ⟨hcarries, hcount, hlate⟩ := ih h
      rw [List.flatten_cons, List.length_append]
      refine ⟨hcarries₁.trans hcarries, by omega, .inr ?_⟩
      rcases hlate with rfl | hlate
      · -- the last buffer of the batch
        cases envs with
        | nil =>
          obtain ⟨rfl, rfl⟩ := Prod.mk.inj (Option.some.inj h)
          exact hlate₁
        | cons env envs => cases h
      · exact hlate

/-- A stream may take each buffer as a whole. -/
theorem exists_writeBuffers (f : LogFile) (d : Files Bytes Byte) (batch : List Bytes) :
    ∃ envs f' d', f.writeBuffers d batch envs = some (f', d') := by
  induction batch generalizing f d with
  | nil => exact ⟨[], f, d, rfl⟩
  | cons data batch ih =>
    obtain ⟨rs, fp, d₁, hall⟩ := OutStream.exists_writeAll f.fp d data
    obtain ⟨⟨f₁, d₂⟩, hwrite⟩ : ∃ p, f.write d data ⟨rs, 0⟩ = some p := by
      rw [write, hall]
      simp only [Option.bind_eq_bind, Option.bind_some]
      split_ifs <;> exact ⟨_, rfl⟩
    obtain ⟨envs, f', d', hrest⟩ := ih f₁ d₂
    refine ⟨⟨rs, 0⟩ :: envs, f', d', ?_⟩
    rw [writeBuffers, hwrite]
    exact hrest

end LogFile

/-! ## The files of the backend -/

/-- **The files**, and the log file of the backend. Which streams were opened before that one, what
was given to each of them, and what was given to this one, is kept for statements alone. -/
structure LogDisk where
  files : Files Bytes Byte
  logfile : Option LogFile := none
  done : List (Bytes × Bytes) := []
  given : Bytes := []

/-- What a turn of the backend takes from outside. -/
structure BackendEnv where
  writes : List WriteEnv
  opening : OpenEnv

/-- The buffers that the backend writes in a turn. -/
def LogState.batch (s : LogState) : List Bytes :=
  (s.logging.buffers ++ [s.logging.current]).map fun x => x.elim [] FixedBuffer.data

namespace LogDisk

/-- All streams that were opened, with what was given to each. -/
def streams (k : LogDisk) : List (Bytes × Bytes) :=
  k.done ++ (k.logfile.map fun f => (f.fp.path, k.given)).toList

/-- What was given to the streams of a file. -/
def givenTo (k : LogDisk) (path : Bytes) : Bytes :=
  (k.streams.filter fun stream => stream.1 = path).flatMap Prod.snd

/-- What is held back from a file. -/
def heldFrom (k : LogDisk) (path : Bytes) : Bytes :=
  match k.logfile with
  | none => []
  | some f => if f.fp.path = path then f.fp.held else []

/-- The log file is destroyed. -/
def destroy (k : LogDisk) : LogDisk :=
  match k.logfile with
  | none => k
  | some f => ⟨f.destroy k.files, none, k.streams, []⟩

/-- A log file is made. -/
def create (k : LogDisk) (filepath : Option Bytes) (env : OpenEnv) : LogDisk :=
  { k with logfile := some (LogFile.create filepath env), given := [] }

/-- **The files in a turn of the backend**: the batch is written, and a file that has reached the
maximum size is replaced. -/
def turn (filepath : Option Bytes) (k : LogDisk) (batch : List Bytes) (env : BackendEnv) :
    Option LogDisk := do
  let f ← k.logfile
  let (f, files) ← f.writeBuffers k.files batch env.writes
  let k := { k with files := files, logfile := some f, given := k.given ++ batch.flatten }
  -- the new stream is opened before the old one is flushed, which makes no difference
  if fileMaximumSize ≤ f.writtenBytes then some (k.destroy.create filepath env.opening) else some k

/-- **The files in a step** of the threads. -/
def act (filepath : Option Bytes) (s : LogState) (k : LogDisk) (env : BackendEnv) :
    LogStep → Option LogDisk
  | .start => some (k.create none env.opening)
  | .lock => if s.logging.buffers.isEmpty then some k else k.turn filepath s.batch env
  | .timeout => k.turn filepath s.batch env
  -- a backend that leaves its loop destroys its log file
  | .test => some (if s.running then k else k.destroy)
  | .append _ | .callStop | .clearRunning | .join => some k

end LogDisk

/-- **The log with its files** under all interleavings of its threads, from any files on. -/
def logFileSystem (filepath : Option Bytes) (files : Files Bytes Byte) :
    LTS (LogState × LogDisk) (LogStep × BackendEnv) where
  init p := p.1 = {} ∧ p.2 = { files := files }
  step p e q := loggingSystem.step p.1 e.1 q.1 ∧ p.2.act filepath p.1 e.2 e.1 = some q.2

/-! ## What the files hold -/

namespace LogDisk

variable {k k' : LogDisk} {files₀ : Files Bytes Byte} {written : Bytes} {filepath : Option Bytes}
  {path : Bytes} {f : LogFile}

/-- **The files hold what was given to their streams**, but for what the log file holds back. Each
stream but the last one was given as much as a file may have. -/
structure Holds (k : LogDisk) (files₀ : Files Bytes Byte) (written : Bytes) : Prop where
  files : ∀ path, k.files path ++ k.heldFrom path = files₀ path ++ k.givenTo path
  written : k.streams.flatMap Prod.snd = written
  full : ∀ stream ∈ k.streams.dropLast, fileMaximumSize ≤ stream.2.length
  count : ∀ f, k.logfile = some f → f.writtenBytes = k.given.length
  held : ∀ f, k.logfile = some f → f.fp.held.length ≤ k.given.length
  late : ∀ f, k.logfile = some f → f.fp.held = [] ∨ f.lastwrite - f.lastflush ≤ flushInterval

/-- The last stream has room. -/
def HasRoom (k : LogDisk) : Prop :=
  ∀ stream ∈ k.streams.getLast?, stream.2.length < fileMaximumSize

theorem streams_of_some (h : k.logfile = some f) :
    k.streams = k.done ++ [(f.fp.path, k.given)] := by
  rw [streams, h]
  rfl

theorem streams_of_none (h : k.logfile = none) : k.streams = k.done := by
  rw [streams, h]
  exact List.append_nil _

theorem heldFrom_of_some (h : k.logfile = some f) (path : Bytes) :
    k.heldFrom path = if f.fp.path = path then f.fp.held else [] := by
  rw [heldFrom, h]

theorem heldFrom_of_none (h : k.logfile = none) (path : Bytes) : k.heldFrom path = [] := by
  rw [heldFrom, h]

/-- One stream more. -/
theorem givenTo_append {streams : List (Bytes × Bytes)} {path' given : Bytes} (path : Bytes) :
    ((streams ++ [(path', given)]).filter fun stream => stream.1 = path).flatMap Prod.snd =
      (streams.filter fun stream => stream.1 = path).flatMap Prod.snd ++
        if path' = path then given else [] := by
  rw [List.filter_append, List.flatMap_append]
  congr 1
  by_cases h : path' = path <;> simp [h]

/-- **A log file that is destroyed** holds nothing back any more. -/
theorem Holds.destroy (h : k.Holds files₀ written) :
    k.destroy.Holds files₀ written ∧ k.destroy.logfile = none ∧ k.destroy.streams = k.streams := by
  cases hf : k.logfile with
  | none =>
    have heq : k.destroy = k := by rw [LogDisk.destroy, hf]
    rw [heq]
    exact ⟨h, hf, rfl⟩
  | some f =>
    have heq : k.destroy = ⟨f.destroy k.files, none, k.streams, []⟩ := by rw [LogDisk.destroy, hf]
    have hstreams : k.destroy.streams = k.streams := by
      rw [heq]
      exact List.append_nil _
    refine ⟨⟨fun path => ?_, ?_, ?_, ?_, ?_, ?_⟩, by rw [heq], hstreams⟩
    · rw [givenTo, hstreams, ← givenTo, ← h.files path, heldFrom_of_some hf, heq]
      -- the flush moves what is held to its file
      have hflush := OutStream.carries_flush f.fp k.files
      have hgiven := hflush.given
      rw [OutStream.held_flush, List.append_nil, List.append_nil] at hgiven
      by_cases hpath : f.fp.path = path
      · subst hpath
        rw [if_pos rfl]
        exact (List.append_nil _).trans hgiven
      · rw [if_neg hpath]
        exact congrArg (· ++ []) (hflush.others path (Ne.symm hpath))
    · rw [hstreams]
      exact h.written
    · rw [hstreams]
      exact h.full
    · rw [heq]
      rintro _ ⟨⟩
    · rw [heq]
      rintro _ ⟨⟩
    · rw [heq]
      rintro _ ⟨⟩

/-- **A new log file**, behind streams that are full. -/
theorem Holds.create (h : k.Holds files₀ written) (hf : k.logfile = none)
    (hfull : ∀ stream ∈ k.streams, fileMaximumSize ≤ stream.2.length) (filepath : Option Bytes)
    (env : OpenEnv) :
    (k.create filepath env).Holds files₀ written ∧ (k.create filepath env).HasRoom := by
  obtain ⟨f, hcreate⟩ : ∃ f, f = LogFile.create filepath env := ⟨_, rfl⟩
  have hnew : f.fp.held = [] ∧ f.writtenBytes = 0 := by
    rw [hcreate]
    cases filepath <;> exact ⟨rfl, rfl⟩
  have hsome : (k.create filepath env).logfile = some f := congrArg some hcreate.symm
  have hstreams : (k.create filepath env).streams = k.streams ++ [(f.fp.path, [])] := by
    rw [streams_of_some hsome, streams_of_none hf]
    rfl
  refine ⟨⟨fun path => ?_, ?_, ?_, ?_, ?_, ?_⟩, ?_⟩
  · have hfiles := h.files path
    rw [heldFrom_of_none hf] at hfiles
    rw [heldFrom_of_some hsome, hnew.1, givenTo, hstreams, givenTo_append, ← givenTo, ite_self,
      List.append_nil (k.givenTo path), ← hfiles]
    rfl
  · rw [hstreams, List.flatMap_append, h.written]
    exact List.append_nil _
  · rw [hstreams, List.dropLast_concat]
    exact hfull
  · intro f' hf'
    obtain rfl := Option.some.inj (hsome.symm.trans hf')
    exact hnew.2
  · intro f' hf'
    obtain rfl := Option.some.inj (hsome.symm.trans hf')
    rw [hnew.1]
    exact Nat.zero_le _
  · intro f' hf'
    obtain rfl := Option.some.inj (hsome.symm.trans hf')
    exact .inl hnew.1
  · rw [HasRoom, hstreams, List.getLast?_concat]
    rintro _ ⟨⟩
    exact Nat.zero_lt_succ _

/-- **A batch** is given to the log file. -/
theorem Holds.write (h : k.Holds files₀ written) (hf : k.logfile = some f) {f' : LogFile}
    {files : Files Bytes Byte} {batch : List Bytes} {envs : List WriteEnv} (hbatch : batch ≠ [])
    (hwrite : f.writeBuffers k.files batch envs = some (f', files)) :
    Holds { k with files := files, logfile := some f', given := k.given ++ batch.flatten } files₀
      (written ++ batch.flatten) := by
  obtain ⟨hcarries, hcount, hlate⟩ := LogFile.carries_writeBuffers hwrite
  have hstreams := streams_of_some hf
  have hpath : f'.fp.path = f.fp.path := hcarries.path
  refine ⟨fun path => ?_, ?_, ?_, ?_, ?_, ?_⟩
  · have hfiles := h.files path
    rw [heldFrom_of_some hf, givenTo, hstreams, givenTo_append] at hfiles
    rw [heldFrom_of_some rfl, givenTo, streams_of_some rfl, givenTo_append, hpath]
    dsimp only
    by_cases hp : f.fp.path = path
    · rw [if_pos hp] at hfiles ⊢
      subst hp
      rw [if_pos rfl] at hfiles ⊢
      rw [hcarries.given, hfiles]
      simp only [List.append_assoc]
    · rw [if_neg hp] at hfiles ⊢
      rw [if_neg hp] at hfiles ⊢
      rw [hcarries.others path (Ne.symm hp), hfiles]
  · rw [streams_of_some rfl, ← h.written, hstreams]
    simp
  · have hfull := h.full
    rw [hstreams, List.dropLast_concat] at hfull
    rw [streams_of_some rfl, List.dropLast_concat]
    exact hfull
  · rintro _ ⟨⟩
    rw [hcount, h.count f hf, List.length_append]
  · rintro _ ⟨⟩
    rw [List.length_append]
    exact hcarries.length_held_le.trans (Nat.add_le_add_right (h.held f hf) _)
  · rintro _ ⟨⟩
    exact hlate.resolve_left hbatch

/-- **A turn of the backend** gives its batch to the files, and leaves room for more. -/
theorem Holds.turn (h : k.Holds files₀ written) {batch : List Bytes} {env : BackendEnv}
    (hbatch : batch ≠ []) (hturn : k.turn filepath batch env = some k') :
    k'.Holds files₀ (written ++ batch.flatten) ∧ k'.HasRoom ∧ k'.logfile ≠ none := by
  rw [LogDisk.turn] at hturn
  obtain ⟨f, hf, hturn⟩ := Option.bind_eq_some_iff.mp hturn
  obtain ⟨⟨f', files⟩, hwrite, hturn⟩ := Option.bind_eq_some_iff.mp hturn
  have hholds := h.write hf hbatch hwrite
  have hstreams := streams_of_some
    (k := { k with files := files, logfile := some f', given := k.given ++ batch.flatten }) rfl
  have hcount := hholds.count f' rfl
  dsimp only at hturn hcount
  split at hturn
  · -- the file has reached its maximum size
    rename_i hmax
    obtain rfl := Option.some.inj hturn
    obtain ⟨hdestroy, hnone, heq⟩ := hholds.destroy
    obtain ⟨hcreate, hroom⟩ := hdestroy.create hnone (by
      rw [heq]
      have hfull := hholds.full
      rw [hstreams, List.dropLast_concat] at hfull
      rw [hstreams, List.forall_mem_append, List.forall_mem_singleton]
      exact ⟨hfull, hcount ▸ hmax⟩) filepath env.opening
    exact ⟨hcreate, hroom, Option.some_ne_none _⟩
  · rename_i hmax
    obtain rfl := Option.some.inj hturn
    refine ⟨hholds, ?_, Option.some_ne_none _⟩
    rw [HasRoom, hstreams, List.getLast?_concat]
    rintro _ ⟨⟩
    exact hcount ▸ not_le.mp hmax

end LogDisk

end CppServerStudio
