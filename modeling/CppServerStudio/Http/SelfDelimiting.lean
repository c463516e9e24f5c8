import CppServerStudio.Http.Framing
import CppServerStudio.Library.Delimiters
import CppServerStudio.Util.Decimal

/-!
# Responses on one connection

A response that keeps the connection open tells the length of its body, behind which the next
response begins. A client that reads the bytes up to the first blank line, and then as many as the
`Content-Length` says, gets each response back.

## Main definitions

* `readResponse`, `readResponses`: the client
* `ResponseContent`, `HttpResponse.content`: what it reads, and what was written
* `HttpResponse.Delimited`: the texts that a response may be made of

## Main results

* `readResponse_message`: one response, whatever stands behind it
* `readResponses_messages`: the responses on a connection, in order
-/

namespace CppServerStudio

open Scanning Delimiters

/-- The parts of a response. -/
structure ResponseContent where
  statusCode : ℕ
  statusMessage : Bytes
  headers : StringMap
  body : Bytes

def HttpResponse.content (r : HttpResponse) : ResponseContent :=
  ⟨r.statusCode.code, r.statusMessage, r.headers, r.body⟩

/-! ## The client -/

/-- The status line: the version, the code and the message. -/
def readStatus (line : Bytes) : Option (ℕ × Bytes) := do
  let (_, line) ← cutAt [SP] line
  let (code, statusMessage) ← cutAt [SP] line
  some (digitsValue 0 code, statusMessage)

/-- A header line, cut at its first colon. -/
def readField (line : Bytes) : Option (Bytes × Bytes) := cutAt (ofString ": ") line

/-- The status line and the header lines. -/
def readHead (head : Bytes) : Option ((ℕ × Bytes) × List (Bytes × Bytes)) :=
  match splitAll [CR, LF] head.length head with
  | [] => none
  | status :: lines => do some (← readStatus status, ← lines.mapM readField)

/-- The headers that every response carries are no part of its header map. -/
def isFixed (key : Bytes) : Bool := key = contentLength || key = ofString "Connection"

/-- **A response**: the bytes up to the first blank line, and as many bytes behind it as the
`Content-Length` says; and the bytes behind the response. -/
def readResponse (s : Bytes) : Option (ResponseContent × Bytes) := do
  let (head, rest) ← cutAt [CR, LF, CR, LF] s
  let ((code, statusMessage), fields) ← readHead head
  let (_, length) ← fields.find? fun kv => kv.1 = contentLength
  let n := digitsValue 0 length
  if n ≤ rest.length then
    some (⟨code, statusMessage, lastValues (fields.filter fun kv => !isFixed kv.1), rest.take n⟩,
      rest.drop n)
  else none

/-- At most `n` responses, up to the end of the bytes. -/
def readResponses : ℕ → Bytes → Option (List ResponseContent)
  | 0, s => if s = [] then some [] else none
  | n + 1, s =>
    if s = [] then some []
    else do
      let (r, rest) ← readResponse s
      some (r :: (← readResponses n rest))

/-! ## One response -/

/-- **The texts of a response**: it keeps the connection open, no text but the body has a CR or LF,
and no header key has a colon or is one of the fixed ones. -/
structure HttpResponse.Delimited (r : HttpResponse) : Prop where
  keepAlive : r.closeConnection = false
  statusMessage : ∀ ch ∈ r.statusMessage, ch ≠ CR ∧ ch ≠ LF
  keys : ∀ kv ∈ r.headers.toList, (∀ ch ∈ kv.1, ch ≠ CR ∧ ch ≠ LF ∧ ch ≠ ascii ':') ∧
    kv.1 ≠ contentLength ∧ kv.1 ≠ ofString "Connection" ∧ kv.1 ≠ ofString "Transfer-Encoding"
  values : ∀ kv ∈ r.headers.toList, ∀ ch ∈ kv.2, ch ≠ CR ∧ ch ≠ LF

/-- The map of the entries of a map. -/
theorem lastValues_toList (m : StringMap) : lastValues m.toList = m := by
  apply Std.ExtTreeMap.ext_getElem?
  intro key
  rw [getElem?_lastValues]
  -- the last entry with this key, if there is one, is the only one
  cases hfind : m.toList.reverse.find? fun kv => kv.1 = key with
  | some kv =>
    obtain ⟨k, v⟩ := kv
    have hkey : k = key := by simpa using List.find?_some hfind
    have hmem := List.mem_reverse.mp (List.mem_of_find?_eq_some hfind)
    rw [Std.ExtTreeMap.mem_toList_iff_getElem?_eq_some, hkey] at hmem
    rw [hmem]
    rfl
  | none =>
    rw [List.find?_eq_none] at hfind
    cases hget : m[key]? with
    | none => rfl
    | some v =>
      have hmem := Std.ExtTreeMap.mem_toList_iff_getElem?_eq_some.mpr hget
      exact absurd (decide_eq_true rfl) (hfind (key, v) (List.mem_reverse.mpr hmem))

namespace HttpResponse

variable {r : HttpResponse}

/-- The status line of a response. -/
def statusLine (r : HttpResponse) : Bytes :=
  ofString "HTTP/1.1" ++ ([SP] ++ (decimal r.statusCode.code ++ ([SP] ++ r.statusMessage)))

/-- The headers of a response, with the two fixed ones. -/
def fields (r : HttpResponse) : List (Bytes × Bytes) :=
  (contentLength, decimal r.body.length) :: (ofString "Connection", ofString "Keep-Alive") ::
    r.headers.toList

/-- A header line without its CR and LF. -/
def fieldText (kv : Bytes × Bytes) : Bytes := kv.1 ++ (ofString ": " ++ kv.2)

/-- Delimiters behind texts, and in front of them. -/
theorem flatMap_append_comm (w sep : Bytes) (ws : List Bytes) :
    w ++ sep ++ ws.flatMap (· ++ sep) = w ++ ws.flatMap (sep ++ ·) ++ sep := by
  induction ws generalizing w with
  | nil => simp
  | cons v ws ih =>
    have hv := ih (w ++ sep ++ v)
    simp only [List.flatMap_cons, List.append_assoc] at hv ⊢
    exact hv

theorem headerLine_eq (kv : Bytes × Bytes) : headerLine kv = fieldText kv ++ [CR, LF] := by
  rw [headerLine, fieldText, ← List.append_assoc kv.1]
  rfl

theorem message_lines (h : r.closeConnection = false) :
    r.message = r.statusLine ++ [CR, LF] ++
      (r.fields.map fieldText).flatMap (· ++ [CR, LF]) ++ ([CR, LF] ++ r.body) := by
  -- the texts of the source, cut at the delimiters
  have hversion : ofString "HTTP/1.1 " = ofString "HTTP/1.1" ++ [SP] := rfl
  have hsp : ofString " " = [SP] := rfl
  have hcrlf : ofString "\r\n" = [CR, LF] := rfl
  have hlength : ofString "Content-Length: " = contentLength ++ ofString ": " := rfl
  have hkeep : ofString "Connection: Keep-Alive\r\n" =
      fieldText (ofString "Connection", ofString "Keep-Alive") ++ [CR, LF] := rfl
  have hheaders : r.headers.toList.flatMap headerLine =
      (r.headers.toList.map fieldText).flatMap (· ++ [CR, LF]) := by
    rw [List.flatMap_map]
    exact List.flatMap_congr fun kv _ => headerLine_eq kv
  rw [message, h, hheaders, hversion, hsp, hcrlf, hlength, hkeep, if_neg Bool.false_ne_true]
  simp only [statusLine, fields, List.map_cons, List.flatMap_cons, List.append_assoc]
  rfl

/-- **The bytes of a response**: its lines, the blank line, and the body. -/
theorem message_eq (h : r.closeConnection = false) :
    r.message = r.statusLine ++ (r.fields.map fieldText).flatMap ([CR, LF] ++ ·) ++
      ([CR, LF, CR, LF] ++ r.body) := by
  have hfour : ([CR, LF, CR, LF] : Bytes) = [CR, LF] ++ [CR, LF] := rfl
  rw [message_lines h, flatMap_append_comm, hfour]
  simp only [List.append_assoc]

/-! ### Texts without delimiters -/

theorem notMem_append {b : Byte} {s t : Bytes} (hs : b ∉ s) (ht : b ∉ t) : b ∉ s ++ t := by
  rw [List.mem_append, not_or]
  exact ⟨hs, ht⟩

theorem notMem_decimal {b : Byte} (hb : isDigit b = false) (n : ℕ) : b ∉ decimal n := by
  intro h
  exact Bool.false_ne_true (hb.symm.trans (isDigit_of_mem_decimal b h))

theorem CR_notMem_statusLine (h : r.Delimited) : CR ∉ r.statusLine := by
  have hmessage : CR ∉ r.statusMessage := fun hm => (h.statusMessage CR hm).1 rfl
  -- part by part: the version, the blank, the code, the blank, the message
  refine notMem_append (by decide) (notMem_append (by decide) ?_)
  exact notMem_append (notMem_decimal (by decide) _) (notMem_append (by decide) hmessage)

/-- No header line has a CR, and no key a colon. -/
theorem notMem_of_mem_fields (h : r.Delimited) :
    ∀ kv ∈ r.fields, CR ∉ kv.1 ∧ CR ∉ kv.2 ∧ ascii ':' ∉ kv.1 := by
  rw [fields, List.forall_mem_cons, List.forall_mem_cons]
  have hlength : CR ∉ contentLength ∧ ascii ':' ∉ contentLength := by decide
  refine ⟨⟨hlength.1, notMem_decimal (by decide) _, hlength.2⟩, by decide, fun kv hkv => ?_⟩
  have hkey := (h.keys kv hkv).1
  exact ⟨fun hcr => (hkey CR hcr).1 rfl, fun hcr => (h.values kv hkv CR hcr).1 rfl,
    fun hcolon => (hkey _ hcolon).2.2 rfl⟩

theorem fieldText_ne_nil (kv : Bytes × Bytes) : fieldText kv ≠ [] := by
  rw [fieldText, Ne, List.append_eq_nil_iff, not_and]
  rintro -
  exact List.cons_ne_nil _ _

/-- The lines that the client looks for. -/
theorem forall_mem_lines (h : r.Delimited) :
    ∀ line ∈ r.fields.map fieldText, line ≠ [] ∧ CR ∉ line := by
  rw [List.forall_mem_map]
  intro kv hkv
  obtain ⟨hkey, hvalue, -⟩ := notMem_of_mem_fields h kv hkv
  exact ⟨fieldText_ne_nil kv, notMem_append hkey (notMem_append (by decide) hvalue)⟩

/-! ### The client on the lines -/

theorem readStatus_statusLine :
    readStatus r.statusLine = some (r.statusCode.code, r.statusMessage) := by
  have hversion : cutAt [SP] r.statusLine =
      some (ofString "HTTP/1.1", decimal r.statusCode.code ++ ([SP] ++ r.statusMessage)) :=
    cutAt_first (by decide) _
  have hcode : cutAt [SP] (decimal r.statusCode.code ++ ([SP] ++ r.statusMessage)) =
      some (decimal r.statusCode.code, r.statusMessage) :=
    cutAt_first (notMem_decimal (by decide) _) _
  rw [readStatus, hversion]
  simp only [Option.bind_eq_bind, Option.bind_some, hcode, digitsValue_decimal]

/-- The header lines are read one by one. -/
theorem mapM_readField {fields : List (Bytes × Bytes)} (h : ∀ kv ∈ fields, ascii ':' ∉ kv.1) :
    (fields.map fieldText).mapM readField = some fields := by
  induction fields with
  | nil => rfl
  | cons kv fields ih =>
    obtain ⟨hkv, hfields⟩ := List.forall_mem_cons.mp h
    have hfield : readField (fieldText kv) = some kv := cutAt_first hkv _
    rw [List.map_cons, List.mapM_cons, hfield, ih hfields]
    rfl

/-- The lines of a response, as the client joins them. -/
def headText (r : HttpResponse) : Bytes :=
  r.statusLine ++ (r.fields.map fieldText).flatMap ([CR, LF] ++ ·)

theorem length_le_flatMap (sep : Byte) (pat : Bytes) (ws : List Bytes) :
    ws.length ≤ (ws.flatMap (sep :: pat ++ ·)).length := by
  induction ws with
  | nil => exact le_rfl
  | cons w ws ih =>
    simp only [List.flatMap_cons, List.length_append, List.length_cons]
    omega

theorem readHead_headText (h : r.Delimited) :
    readHead r.headText = some ((r.statusCode.code, r.statusMessage), r.fields) := by
  have hlines := forall_mem_lines h
  -- there are no more lines than bytes, so the fuel of the splitting is enough
  have hlen : (r.fields.map fieldText).length ≤ r.headText.length := by
    have hle := length_le_flatMap CR [LF] (r.fields.map fieldText)
    rw [headText, List.length_append]
    exact hle.trans (Nat.le_add_left _ _)
  have hsplit : splitAll [CR, LF] r.headText.length r.headText =
      r.statusLine :: r.fields.map fieldText :=
    splitAll_texts (CR_notMem_statusLine h) (fun line hline => (hlines line hline).2) hlen
  have hfields := mapM_readField fun kv hkv => (notMem_of_mem_fields h kv hkv).2.2
  simp [readHead, hsplit, readStatus_statusLine, hfields]

/-- The header map of a response is what the client keeps of its headers. -/
theorem lastValues_fields (h : r.Delimited) :
    lastValues (r.fields.filter fun kv => !isFixed kv.1) = r.headers := by
  have hheaders : r.headers.toList.filter (fun kv => !isFixed kv.1) = r.headers.toList := by
    rw [List.filter_eq_self]
    intro kv hkv
    obtain ⟨-, hlength, hconnection, -⟩ := h.keys kv hkv
    simp [isFixed, hlength, hconnection]
  have hfixed : isFixed contentLength = true ∧ isFixed (ofString "Connection") = true := by decide
  rw [fields, List.filter_cons_of_neg (by simp [hfixed.1]),
    List.filter_cons_of_neg (by simp [hfixed.2]), hheaders, lastValues_toList]

/-- **A response is read** whatever stands behind it. -/
theorem readResponse_message (h : r.Delimited) (rest : Bytes) :
    readResponse (r.message ++ rest) = some (r.content, rest) := by
  have hcut : cutAt [CR, LF, CR, LF] (r.message ++ rest) = some (r.headText, r.body ++ rest) := by
    -- no line is empty, so the first blank line is the one in front of the body
    have hdouble := @cutAt_double _ _ CR [LF] r.statusLine (r.fields.map fieldText) (by decide)
      (CR_notMem_statusLine h) (forall_mem_lines h) (r.body ++ rest)
    rw [message_eq h.keepAlive, List.append_assoc, List.append_assoc [CR, LF, CR, LF]]
    exact hdouble
  have hfind : r.fields.find? (fun kv => kv.1 = contentLength) =
      some (contentLength, decimal r.body.length) := by
    rw [fields, List.find?_cons_of_pos (by simp)]
  rw [readResponse, hcut]
  simp only [Option.bind_eq_bind, Option.bind_some, readHead_headText h, hfind,
    digitsValue_decimal, lastValues_fields h, List.length_append, List.take_left, List.drop_left]
  rw [if_pos (Nat.le_add_right _ _), content]

/-! ## The responses on a connection -/

theorem readResponses_succ {s rest : Bytes} {c : ResponseContent} (hs : s ≠ [])
    (h : readResponse s = some (c, rest)) (n : ℕ) :
    readResponses (n + 1) s = (readResponses n rest).map (c :: ·) := by
  rw [readResponses, if_neg hs, h]
  simp only [Option.bind_eq_bind, Option.bind_some]
  cases readResponses n rest <;> rfl

/-- Each response takes one round of the client. -/
theorem readResponses_of_le {rs : List HttpResponse} (h : ∀ r ∈ rs, r.Delimited) {n : ℕ}
    (hn : rs.length ≤ n) : readResponses n (rs.flatMap message) = some (rs.map content) := by
  -- Induction on the responses, with rounds to spare.
  induction rs generalizing n with
  | nil => cases n <;> rfl
  | cons r rs ih =>
    obtain ⟨hr, hrs⟩ := List.forall_mem_cons.mp h
    obtain ⟨n, rfl⟩ : ∃ k, n = k + 1 := ⟨n - 1, by simp at hn; omega⟩
    have hne : r.message ++ rs.flatMap message ≠ [] :=
      List.append_ne_nil_of_left_ne_nil (message_ne_nil r) _
    rw [List.flatMap_cons, readResponses_succ hne (readResponse_message hr _),
      ih hrs (by simpa using hn)]
    rfl

/-- **The responses on a connection are read back**, in order, with one round for each byte. -/
theorem readResponses_messages {rs : List HttpResponse} (h : ∀ r ∈ rs, r.Delimited) :
    readResponses (rs.flatMap message).length (rs.flatMap message) = some (rs.map content) := by
  refine readResponses_of_le h ?_
  rw [List.length_flatMap]
  calc rs.length = (rs.map fun _ => 1).sum := by simp
    _ ≤ (rs.map fun r => r.message.length).sum := by
      exact List.sum_le_sum fun r _ => List.length_pos_of_ne_nil (message_ne_nil r)

/-- A response with a header, whose body has a blank line and a status line in it. -/
def blankBody : HttpResponse where
  headers := (∅ : StringMap).insert (ofString "Server") (ofString "studio: 1")
  statusCode := .k200K
  statusMessage := ofString "OK"
  body := ofString "\r\n\r\nHTTP/1.1 404 \r\n"
  closeConnection := false

/-- A response without a message, headers and a body. -/
def bareResponse : HttpResponse where
  statusCode := .k404NotFound
  closeConnection := false

theorem blankBody_delimited : blankBody.Delimited := by
  -- the map has one entry
  have hheader : ∀ kv ∈ blankBody.headers.toList,
      kv = (ofString "Server", ofString "studio: 1") := by
    rintro ⟨key, value⟩ hkv
    rw [Std.ExtTreeMap.mem_toList_iff_getElem?_eq_some, blankBody,
      Std.ExtTreeMap.getElem?_insert] at hkv
    split_ifs at hkv with hkey
    · rw [Std.LawfulEqCmp.eq_of_compare hkey, Option.some.inj hkv]
    · simp at hkv
  refine ⟨rfl, forall_mem_of_all (by decide), fun kv hkv => ?_, fun kv hkv => ?_⟩
  · rw [hheader kv hkv]
    exact ⟨forall_mem_of_all (by decide), by decide⟩
  · rw [hheader kv hkv]
    exact forall_mem_of_all (by decide)

theorem bareResponse_delimited : bareResponse.Delimited := by
  have hnil : bareResponse.headers.toList = [] := Std.ExtTreeMap.toList_eq_nil_iff.mpr rfl
  constructor
  · rfl
  · exact List.forall_mem_nil _
  · rw [hnil]
    exact List.forall_mem_nil _
  · rw [hnil]
    exact List.forall_mem_nil _

theorem readResponses_messages_two :
    readResponses ([blankBody, bareResponse, blankBody].flatMap message).length
      ([blankBody, bareResponse, blankBody].flatMap message) =
        some [blankBody.content, bareResponse.content, blankBody.content] := by
  refine readResponses_messages ?_
  simp only [List.forall_mem_cons]
  exact ⟨blankBody_delimited, bareResponse_delimited, blankBody_delimited, List.forall_mem_nil _⟩

end HttpResponse

end CppServerStudio
