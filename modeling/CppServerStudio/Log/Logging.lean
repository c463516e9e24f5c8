import CppServerStudio.Log.LogStream

/-!
# Log records

A `Logger` begins its stream with the time, the thread and the level. `Finish` writes the place in
the source and a newline behind what was put into the stream, and the destructor hands the bytes to
the output. Each of these pieces is dropped if it does not fit, the newline too.

## Main definitions

* `Logger.new`, `Logger.finish`, `Logger.destroy`: a record from its beginning to its output
* `Logger.EndsWithNewline`: the newline of `Finish` ends the record
* `StreamArg.fillAfter`: how full the stream is after a piece, said by its length

## Main results

* `LogStream.insertAll_ok`: how full the stream is after a sequence of pieces
* `Logger.endsWithNewline_iff`: which records end with their newline
-/

namespace CppServerStudio

/-! ## How full the stream is -/

namespace StreamArg

/-- A literal. -/
def literal (str : String) : StreamArg := .cString (some (ofString str))

/-- The length that is written, as the `int` that is passed to `append`. -/
def len : StreamArg → ℤ
  | .bool _ => 1
  | .integer num => (decimal num.value.natAbs).length
  | .floating text => intOfSize text.length
  | .char _ => 1
  | .cString (some str) => intOfSize str.length
  | .cString none => 6
  | .string v => intOfSize v.length
  | .fmt text => intOfSize text.length

/-- The room that is asked for: there must be more. -/
def room : StreamArg → ℤ
  | .integer _ => kMaxNumericSize - 1
  | arg => arg.len

/-- How full the stream is after a piece, if it held `fill` bytes before. -/
def fillAfter (fill : ℕ) (arg : StreamArg) : ℕ :=
  if fill + arg.room < fixedBufferSize then fill + arg.len.toNat else fill

end StreamArg

theorem bmod_le (n m : ℕ) : (n : ℤ).bmod m ≤ n := by
  have hmod : (n : ℤ) % m ≤ n := by
    rw [← Int.natCast_mod]
    exact Int.ofNat_le.mpr (Nat.mod_le n m)
  rw [Int.bmod]
  split
  · exact hmod
  · exact (Int.sub_le_self _ (Int.natCast_nonneg m)).trans hmod

theorem intOfSize_le (n : ℕ) : intOfSize n ≤ n := bmod_le n _

namespace LogStream

variable {s : LogStream} {arg : StreamArg} {args : List StreamArg} {data : Bytes} {len : ℤ}

/-- How many bytes are in the stream. -/
def fill (s : LogStream) : ℕ := s.buffer.len

theorem append_error (h : len < 0) : s.append data len = .error .negativeLength := by
  rw [append, if_pos (by omega), if_pos h]

theorem append_data (data : Bytes) (h : 0 ≤ len) (hle : len ≤ data.length) : ∃ t,
    s.append data len = .ok t ∧ t.buffer.data =
      s.buffer.data ++ if s.fill + len < fixedBufferSize then data.take len.toNat else [] := by
  have hlength : (data.take len.toNat).length = len.toNat := by
    rw [List.length_take]
    omega
  have hfull : s.buffer.len ≤ fixedBufferSize := s.buffer.le_size
  have havail : s.buffer.avail = fixedBufferSize - s.buffer.len := rfl
  by_cases hroom : len < s.buffer.avail
  · have hcopies : s.buffer.Copies (data.take len.toNat) := by
      rw [FixedBuffer.Copies, hlength]
      omega
    rw [append, if_pos hroom, if_neg (not_lt.mpr h)]
    refine ⟨_, rfl, ?_⟩
    rw [FixedBuffer.data_append, if_pos hcopies, if_pos (by rw [fill]; omega)]
  · rw [append, if_neg hroom]
    refine ⟨s, rfl, ?_⟩
    rw [if_neg (by rw [fill]; omega), List.append_nil]

theorem append_ok (h : 0 ≤ len) (hle : len ≤ data.length) : ∃ t, s.append data len = .ok t ∧
    t.fill = if s.fill + len < fixedBufferSize then s.fill + len.toNat else s.fill := by
  obtain ⟨t, happend, hdata⟩ := append_data (s := s) data h hle
  refine ⟨t, happend, ?_⟩
  rw [fill, FixedBuffer.len, hdata, List.length_append]
  split
  · rw [List.length_take, min_eq_left (by omega)]
    rfl
  · rfl

/-- Bytes that there is room for. -/
theorem append_of_room (s : LogStream) (data : Bytes) (n : ℕ) (hle : n ≤ data.length)
    (hroom : s.fill + n < fixedBufferSize) :
    ∃ t, s.append data n = .ok t ∧ t.fill = s.fill + n := by
  obtain ⟨t, happend, hfill⟩ :=
    append_ok (s := s) (Int.natCast_nonneg n) (Int.ofNat_le.mpr hle)
  rw [if_pos (by omega), Int.toNat_natCast] at hfill
  exact ⟨t, happend, hfill⟩

theorem fill_formatInteger (value : MachineInt) : (s.formatInteger value).fill =
    if s.fill + ((kMaxNumericSize : ℤ) - 1) < fixedBufferSize
    then s.fill + (decimal value.val.natAbs).length else s.fill := by
  have hfull : s.buffer.len ≤ fixedBufferSize := s.buffer.le_size
  have havail : s.buffer.avail = fixedBufferSize - s.buffer.len := rfl
  by_cases hroom : kMaxNumericSize ≤ s.buffer.avail
  · rw [if_pos (by rw [fill]; rw [kMaxNumericSize] at *; omega), fill, FixedBuffer.len,
      data_formatInteger hroom, List.length_append, length_integerText]
    rfl
  · rw [if_neg (by rw [fill]; rw [kMaxNumericSize] at *; omega), formatInteger, dif_neg hroom]

/-- **One piece**: a length that is negative as an `int` is the only failure. -/
theorem insert_ok (h : 0 ≤ arg.len) :
    ∃ t, s.insert arg = .ok t ∧ t.fill = arg.fillAfter s.fill := by
  cases arg with
  | bool v => cases v <;> exact append_ok h le_rfl
  | integer num =>
    refine ⟨s.formatInteger num.passed, rfl, ?_⟩
    rw [fill_formatInteger, num.val_passed]
    rfl
  | char v => exact append_ok h le_rfl
  | cString str =>
    cases str with
    | none => exact append_ok h le_rfl
    | some str => exact append_ok h (intOfSize_le _)
  | floating text => exact append_ok h (intOfSize_le _)
  | string v => exact append_ok h (intOfSize_le _)
  | fmt text => exact append_ok h (intOfSize_le _)

theorem insert_error (h : arg.len < 0) : s.insert arg = .error .negativeLength := by
  cases arg with
  | integer num => exact absurd h (not_lt.mpr (Int.natCast_nonneg _))
  | bool v => cases v <;> exact append_error h
  | cString str => cases str <;> exact append_error h
  | char v => exact append_error h
  | floating text => exact append_error h
  | string v => exact append_error h
  | fmt text => exact append_error h

/-- `operator<<` of each piece in turn. -/
def insertAll (s : LogStream) (args : List StreamArg) : Except CopyFault LogStream :=
  args.foldlM insert s

/-- **A sequence of pieces.** -/
theorem insertAll_ok (h : ∀ arg ∈ args, 0 ≤ arg.len) : ∃ t, s.insertAll args = .ok t ∧
    t.fill = args.foldl StreamArg.fillAfter s.fill := by
  induction args generalizing s with
  | nil => exact ⟨s, rfl, rfl⟩
  | cons arg args ih =>
    obtain ⟨t, hinsert, hfill⟩ := insert_ok (s := s) (h arg List.mem_cons_self)
    obtain ⟨u, hrest, hfill'⟩ := ih (s := t) fun a ha => h a (List.mem_cons_of_mem _ ha)
    refine ⟨u, ?_, ?_⟩
    · rw [insertAll, List.foldlM_cons, hinsert]
      exact hrest
    · rw [hfill', hfill, List.foldl_cons]

theorem len_nonneg_of_insertAll {t : LogStream} (h : s.insertAll args = .ok t) :
    ∀ arg ∈ args, 0 ≤ arg.len := by
  induction args generalizing s with
  | nil => exact fun arg harg => absurd harg List.not_mem_nil
  | cons arg args ih =>
    have hlen : 0 ≤ arg.len := by
      by_contra hneg
      rw [insertAll, List.foldlM_cons, insert_error (not_le.mp hneg)] at h
      cases h
    obtain ⟨u, hinsert, -⟩ := insert_ok (s := s) hlen
    rw [insertAll, List.foldlM_cons, hinsert] at h
    exact List.forall_mem_cons.mpr ⟨hlen, ih h⟩

theorem fill_of_insertAll {t : LogStream} (h : s.insertAll args = .ok t) :
    t.fill = args.foldl StreamArg.fillAfter s.fill := by
  obtain ⟨u, hu, hfill⟩ := insertAll_ok (len_nonneg_of_insertAll h)
  obtain rfl := Except.ok.inj (h.symm.trans hu)
  exact hfill

end LogStream

/-! ## Records -/

inductive LogLevel
  | debug
  | info
  | warn
  | error
  | fatal
  deriving DecidableEq

def LogLevel.loglevel : LogLevel → Bytes
  | debug => ofString "DEBUG "
  | info => ofString "INFO  "
  | warn => ofString "WARN  "
  | error => ofString "ERROR "
  | fatal => ofString "FATAL "

theorem LogLevel.length_loglevel (level : LogLevel) : level.loglevel.length = 6 := by
  cases level <;> rfl

/-- A `SourceFile` has the name behind the last slash. -/
def sourceFile (data : Bytes) : Bytes :=
  match rfind [ascii '/'] data with
  | some slash => data.drop (slash + 1)
  | none => data

/-- The first 17 bytes of `t_time`, the only ones that are read. -/
abbrev TimeText := { text : Bytes // text.length = 17 }

/-- The variables of a thread. -/
structure LogThread where
  time : TimeText
  lastSecond : ℕ
  tid : Int32

namespace LogThread

/-- A second is formatted once. `localtime` is the text of a second in the local time. -/
def formatted (localtime : ℕ → TimeText) (thread : LogThread) (seconds : ℕ) : LogThread :=
  if thread.lastSecond ≠ seconds then
    { thread with time := localtime seconds, lastSecond := seconds }
  else thread

def tidString (thread : LogThread) : Bytes :=
  (decimalInt thread.tid.toInt).leftpad 5 (ascii ' ') ++ ofString " "

theorem tid_formatted {localtime : ℕ → TimeText} {thread : LogThread} {seconds : ℕ} :
    (thread.formatted localtime seconds).tidString = thread.tidString := by
  rw [formatted]
  split <;> rfl

theorem length_tidString_le (thread : LogThread) : thread.tidString.length ≤ 22 := by
  have hlow := thread.tid.le_toInt
  have hhigh := thread.tid.toInt_lt
  have hdigits : (decimal thread.tid.toInt.natAbs).length ≤ 20 := by
    rw [decimal, List.length_map, Nat.length_toDigits_le_iff (by norm_num) (by norm_num)]
    omega
  have hlength : (decimalInt thread.tid.toInt).length ≤ 21 := by
    rw [decimalInt]
    split
    · exact Nat.succ_le_succ hdigits
    · exact Nat.le_succ_of_le hdigits
  rw [tidString, List.length_append, List.length_leftpad]
  exact Nat.succ_le_succ (max_le (by norm_num) hlength)

end LogThread

/-- The text of `".%06dZ "`. -/
def usText (microseconds : ℕ) : Bytes :=
  ofString "." ++ (decimal microseconds).leftpad 6 (ascii '0') ++ ofString "Z "

theorem nine_le_length_usText (microseconds : ℕ) : 9 ≤ (usText microseconds).length := by
  rw [usText, List.length_append, List.length_append, List.length_leftpad]
  exact Nat.add_le_add_right (Nat.add_le_add_left (le_max_left 6 _) 1) 2

/-- A record that is being written. -/
structure Logger where
  level : LogLevel
  sourcefile : Bytes
  line : Int32
  stream : LogStream

/-- What the destructor does: the bytes that are output, and whether the program is ended. -/
structure Destroyed where
  output : Bytes
  aborts : Bool

namespace Logger

variable (localtime : ℕ → TimeText) (thread : LogThread) (now : ℕ)

/-- **The constructor**, at `now` microseconds. -/
def new (file : Bytes) (line : Int32) (level : LogLevel) :
    Except CopyFault (LogThread × Logger) := do
  let thread := thread.formatted localtime (now / 1000000)
  let stream ← LogStream.append {} thread.time.val 17
  let stream ← stream.append (usText (now % 1000000)) 9
  let stream ← stream.append thread.tidString thread.tidString.length
  let stream ← stream.append level.loglevel 6
  return (thread, ⟨level, sourceFile file, line, stream⟩)

/-- What `Finish` writes in front of the newline. -/
def place (logger : Logger) : List StreamArg :=
  [.literal " - ", .cString (some logger.sourcefile), .literal ":", .integer (.int logger.line)]

/-- **`Finish`**. -/
def finish (logger : Logger) : Except CopyFault Logger := do
  let stream ← logger.stream.insertAll logger.place
  let stream ← stream.insert (.literal "\n")
  return { logger with stream }

/-- **The destructor**. -/
def destroy (logger : Logger) : Except CopyFault Destroyed := do
  let logger ← logger.finish
  return ⟨logger.stream.buffer.data, logger.level = .fatal⟩

/-- **A record ends with its newline**: the pieces put into it are copied, and what is output is the
bytes in front of the newline of `Finish` and this newline. -/
def EndsWithNewline (file : Bytes) (line : Int32) (level : LogLevel) (args : List StreamArg) :
    Prop :=
  ∃ thread' logger stream before ended,
    new localtime thread now file line level = .ok (thread', logger) ∧
      logger.stream.insertAll args = .ok stream ∧
      stream.insertAll logger.place = .ok before ∧
      { logger with stream }.destroy = .ok ended ∧
      ended.output = before.buffer.data ++ [LF]

/-- How full the stream is behind the level. -/
def startFill : ℕ := 32 + thread.tidString.length

/-- How full the stream is behind the file name. -/
def nameFill (file : Bytes) (args : List StreamArg) : ℕ :=
  let place := [StreamArg.literal " - ", .cString (some (sourceFile file))]
  (args ++ place).foldl StreamArg.fillAfter (startFill thread)

/-- **A record fits**: each length is that of an `int`, and there is room for two bytes behind the
file name. -/
structure Fits (file : Bytes) (args : List StreamArg) : Prop where
  len : ∀ arg ∈ args, 0 ≤ arg.len
  name : 0 ≤ intOfSize (sourceFile file).length
  room : nameFill thread file args + 2 < fixedBufferSize

/-- The beginning of a record always fits. -/
theorem new_ok (file : Bytes) (line : Int32) (level : LogLevel) : ∃ thread' logger,
    new localtime thread now file line level = .ok (thread', logger) ∧
      logger.stream.fill = startFill thread ∧ logger.sourcefile = sourceFile file := by
  have htid := thread.length_tidString_le
  have hus := nine_le_length_usText (now % 1000000)
  have hsize : fixedBufferSize = 4096 := rfl
  have hempty : ({} : LogStream).fill = 0 := rfl
  let thread' := thread.formatted localtime (now / 1000000)
  -- the time, the microseconds, the thread and the level in turn
  obtain ⟨s₁, h₁, hfill₁⟩ := LogStream.append_of_room {} thread'.time.val 17
    thread'.time.property.ge (by omega)
  obtain ⟨s₂, h₂, hfill₂⟩ := s₁.append_of_room (usText (now % 1000000)) 9 hus (by omega)
  obtain ⟨s₃, h₃, hfill₃⟩ := s₂.append_of_room thread'.tidString _ le_rfl
    (by rw [LogThread.tid_formatted]; omega)
  obtain ⟨s₄, h₄, hfill₄⟩ := s₃.append_of_room level.loglevel 6 level.length_loglevel.ge
    (by rw [hfill₃, LogThread.tid_formatted]; omega)
  refine ⟨thread', ⟨level, sourceFile file, line, s₄⟩, ?_, ?_, rfl⟩
  · rw [new]
    change (LogStream.append {} thread'.time.val ((17 : ℕ) : ℤ) >>= _) = _
    rw [h₁]
    change (s₁.append (usText (now % 1000000)) ((9 : ℕ) : ℤ) >>= _) = _
    rw [h₂]
    change (s₂.append thread'.tidString thread'.tidString.length >>= _) = _
    rw [h₃]
    change (s₃.append level.loglevel ((6 : ℕ) : ℤ) >>= _) = _
    rw [h₄]
    rfl
  · change s₄.fill = startFill thread
    rw [LogThread.tid_formatted] at hfill₃
    rw [startFill]
    omega

variable {localtime thread now} {file : Bytes} {line : Int32} {level : LogLevel}
  {args : List StreamArg} {logger : Logger} {stream before : LogStream}

/-- The colon and the line leave room for a newline if the colon does not take it. -/
theorem fill_place_iff {fill : ℕ} {num : IntegerArg} :
    [StreamArg.literal ":", .integer num].foldl StreamArg.fillAfter fill + 1 < fixedBufferSize ↔
      fill + 2 < fixedBufferSize := by
  have hdigits : (decimal num.value.natAbs).length ≤ 20 := by
    rw [← num.val_passed, ← length_integerText]
    exact length_integerText_le num.passed
  have hcolon : (StreamArg.literal ":").len = 1 := by decide
  have hroom : (StreamArg.literal ":").room = 1 := hcolon
  have hline : (StreamArg.integer num).len = (decimal num.value.natAbs).length := rfl
  have hlineRoom : (StreamArg.integer num).room = 47 := rfl
  rw [List.foldl_cons, List.foldl_cons, List.foldl_nil]
  simp only [StreamArg.fillAfter, hcolon, hroom, hline, hlineRoom, fixedBufferSize]
  split <;> split <;> omega

/-- **The newline** is copied unless one byte at most is left. -/
theorem insert_newline (s : LogStream) : ∃ t, s.insert (.literal "\n") = .ok t ∧
    t.buffer.data = s.buffer.data ++ if s.fill + 1 < fixedBufferSize then [LF] else [] := by
  have hlen : intOfSize (ofString "\n").length = 1 := by decide
  have hinsert : s.insert (.literal "\n") = s.append [LF] 1 := congrArg (s.append _) hlen
  obtain ⟨t, happend, hdata⟩ := LogStream.append_data (s := s) [LF] zero_le_one le_rfl
  exact ⟨t, hinsert.trans happend, by exact_mod_cast hdata⟩

theorem len_place_iff :
    (∀ arg ∈ logger.place, 0 ≤ arg.len) ↔ 0 ≤ intOfSize logger.sourcefile.length := by
  constructor
  · intro h
    exact h (.cString (some logger.sourcefile)) (by simp [place])
  · intro h arg harg
    simp only [place, List.mem_cons, List.not_mem_nil, or_false] at harg
    rcases harg with rfl | rfl | rfl | rfl
    · decide
    · exact h
    · decide
    · exact Int.natCast_nonneg _

/-- There is room for the newline if there is room for two bytes behind the file name. -/
theorem room_iff (hfill : logger.stream.fill = startFill thread)
    (hsource : logger.sourcefile = sourceFile file)
    (hargs : logger.stream.insertAll args = .ok stream)
    (hplace : stream.insertAll logger.place = .ok before) :
    before.fill + 1 < fixedBufferSize ↔ nameFill thread file args + 2 < fixedBufferSize := by
  have hpieces : logger.place = [.literal " - ", .cString (some (sourceFile file))] ++
      [.literal ":", .integer (.int logger.line)] := by
    rw [place, hsource, List.cons_append, List.singleton_append]
  rw [LogStream.fill_of_insertAll hplace, LogStream.fill_of_insertAll hargs, hfill, hpieces,
    List.foldl_append, fill_place_iff, nameFill, List.foldl_append]

/-- What is output, behind the place in the source. -/
theorem destroy_ok (logger : Logger) (h : logger.stream.insertAll logger.place = .ok before) :
    ∃ ended, logger.destroy = .ok ended ∧ ended.output =
      before.buffer.data ++ if before.fill + 1 < fixedBufferSize then [LF] else [] := by
  obtain ⟨t, hinsert, hdata⟩ := insert_newline before
  refine ⟨⟨t.buffer.data, logger.level = .fatal⟩, ?_, hdata⟩
  simp only [destroy, finish, h, hinsert, bind, Except.bind, pure, Except.pure]

theorem Fits.endsWithNewline (h : Fits thread file args) :
    EndsWithNewline localtime thread now file line level args := by
  obtain ⟨thread', logger, hnew, hfill, hsource⟩ := new_ok localtime thread now file line level
  obtain ⟨stream, hstream, -⟩ := LogStream.insertAll_ok (s := logger.stream) h.len
  have hname : ∀ arg ∈ logger.place, 0 ≤ arg.len := len_place_iff.mpr (hsource ▸ h.name)
  obtain ⟨before, hbefore, -⟩ := LogStream.insertAll_ok (s := stream) hname
  obtain ⟨ended, hdestroy, houtput⟩ := destroy_ok { logger with stream } hbefore
  refine ⟨thread', logger, stream, before, ended, hnew, hstream, hbefore, hdestroy, ?_⟩
  rw [houtput, if_pos ((room_iff hfill hsource hstream hbefore).mpr h.room)]

theorem EndsWithNewline.fits (h : EndsWithNewline localtime thread now file line level args) :
    Fits thread file args := by
  obtain ⟨_, logger, stream, before, ended, hnew, hargs, hplace, hdestroy, houtput⟩ := h
  obtain ⟨_, _, hnew', hfill, hsource⟩ := new_ok localtime thread now file line level
  obtain ⟨rfl, rfl⟩ := Prod.mk.inj (Except.ok.inj (hnew.symm.trans hnew'))
  obtain ⟨_, hdestroy', houtput'⟩ := destroy_ok { logger with stream } hplace
  obtain rfl := Except.ok.inj (hdestroy.symm.trans hdestroy')
  constructor
  · exact LogStream.len_nonneg_of_insertAll hargs
  · rw [← hsource]
    exact len_place_iff.mp (LogStream.len_nonneg_of_insertAll hplace)
  · -- without room nothing follows the bytes in front of the newline
    refine (room_iff hfill hsource hargs hplace).mp ?_
    by_contra hno
    rw [houtput, if_neg hno, List.append_cancel_left_eq] at houtput'
    cases houtput'

/-- **A record ends with its newline** exactly if it fits. -/
theorem endsWithNewline_iff :
    EndsWithNewline localtime thread now file line level args ↔ Fits thread file args :=
  ⟨EndsWithNewline.fits, Fits.endsWithNewline⟩

/-- The record that `RtspServer::OnMessage` writes of 3990 bytes that are no request. -/
theorem not_endsWithNewline : ¬ ∀ (localtime : ℕ → TimeText) (thread : LogThread) (now : ℕ)
    (file : Bytes) (line : Int32) (level : LogLevel) (args : List StreamArg),
    EndsWithNewline localtime thread now file line level args := by
  intro h
  have hfits := (h (fun _ => ⟨List.replicate 17 48, List.length_replicate⟩)
    ⟨⟨List.replicate 17 48, List.length_replicate⟩, 0, 1⟩ 0 (ofString "RtspServer.cpp") 40 .info
    [.literal "RtspServer::onMessage : Receive non Rtsp message: ",
      .string (List.replicate 3990 120)]).fits
  have hroom := hfits.room
  have hkeep : ∀ (fill n : ℕ) (arg : StreamArg), arg.len = n → arg.room = arg.len →
      fill + n < fixedBufferSize → arg.fillAfter fill = fill + n := by
    intro fill n arg hlen hroom hlt
    rw [StreamArg.fillAfter, hroom, hlen, if_pos (by omega), Int.toNat_natCast]
  have hmessage : (StreamArg.string (List.replicate 3990 120)).len = (3990 : ℕ) := by
    rw [StreamArg.len, List.length_replicate]
    decide
  -- the record is 4095 bytes long behind the file name
  rw [nameFill, startFill, List.cons_append, List.singleton_append,
    List.foldl_cons, hkeep _ 50 _ (by decide) rfl (by decide),
    List.foldl_cons, hkeep _ 3990 _ hmessage rfl (by decide),
    List.foldl_cons, hkeep _ 3 _ (by decide) rfl (by decide),
    List.foldl_cons, hkeep _ 14 _ (by decide) rfl (by decide)] at hroom
  exact absurd hroom (by decide)

end Logger

end CppServerStudio
