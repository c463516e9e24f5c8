import CppServerStudio.Rtsp.Session
import CppServerStudio.Util.Decimal
import CppServerStudio.Util.Find

/-!
# The urls of streams

A stream is named by `rtsp://host[:port]/app/stream`, with a slash behind it or not. `parse` takes
such a url apart, but looks for the application and the stream only if there is a colon in front of
the port, and asks for the last byte of the stream without asking whether there is one.

## Main definitions

* `RtspSession.parseChecked`: `parse`, where the last byte of an empty string is a fault
* `StreamUrl`: the parts of a url, and `StreamUrl.text`, the url they make
* `RtspSession.ParsesBack`: the parts of a url are those that were put into it

## Main results

* `parse_of_parseChecked`: without a fault the two parsers agree
* `parsesBack_iff`: which urls are taken apart
-/

namespace CppServerStudio

open Scanning

/-! ## The last byte of a string -/

/-- What `std::string` forbids for an empty string. -/
inductive EmptyString
  | back | popBack
  deriving DecidableEq, Repr

/-- `s.back()`. -/
def back (s : Bytes) : Except EmptyString Byte :=
  match s.getLast? with
  | none => .error .back
  | some b => .ok b

/-- `s.pop_back()`. -/
def popBack (s : Bytes) : Except EmptyString Bytes :=
  if s = [] then .error .popBack else .ok s.dropLast

/-- The path of a stream without the slash at its end. -/
def dropSlash (url : Bytes) : Except EmptyString Bytes := do
  if (← back url) = ascii '/' then popBack url else .ok url

theorem dropSlash_concat (s : Bytes) (b : Byte) :
    dropSlash (s ++ [b]) = .ok (if b = ascii '/' then s else s ++ [b]) := by
  have hback : back (s ++ [b]) = .ok b := by rw [back, List.getLast?_concat]
  have hpop : popBack (s ++ [b]) = .ok s := by
    rw [popBack, if_neg (by simp), List.dropLast_concat]
  rw [dropSlash, hback, ok_bind, hpop, apply_ite Except.ok]

theorem eq_of_dropSlash {url v : Bytes} (h : dropSlash url = .ok v) :
    (if url.getLast? = some (ascii '/') then url.dropLast else url) = v := by
  rcases List.eq_nil_or_concat url with rfl | ⟨s, b, rfl⟩
  · cases h
  · rw [List.concat_eq_append] at h ⊢
    rw [dropSlash_concat, Except.ok.injEq] at h
    simpa only [List.getLast?_concat, List.dropLast_concat, Option.some.injEq] using h

namespace RtspSession

/-- The part of `parse` behind the host and the port. -/
def parsePath (s : RtspSession) (url : Bytes) : Except EmptyString RtspSession :=
  match find (ofString "/") url with
  | none => .ok { s with app := url }
  | some pos => do
    let s := { s with app := url.take pos }
    let url ← dropSlash (url.drop (pos + 1))
    .ok { s with streamid := url }

/-- The part of `parse` behind the schema. -/
def parseHost (s : RtspSession) (url : Bytes) : Except EmptyString RtspSession :=
  let pos := find (ofString "/") url
  match rfind (ofString ":") (upTo url pos) with
  | none => .ok { s with host := upTo url pos, vhost := upTo url pos }
  | some hostPos =>
    parsePath { s with
      host := url.take hostPos
      port := (sscanfU16 ((upTo url pos).drop (hostPos + 1))).getD s.port
      vhost := url.take hostPos } (after url pos)

/-- **`parse`**, which ends in a fault when it asks an empty string for its last byte. -/
def parseChecked (s : RtspSession) (urlIn : Bytes) : Except EmptyString RtspSession :=
  match find (ofString "://") urlIn with
  | some schemaPos =>
    parseHost { s with schema := urlIn.take schemaPos } (urlIn.drop (schemaPos + 3))
  | none => parseHost s urlIn

/-! ## The parser without faults -/

section Unchecked

variable {s t : RtspSession} {url : Bytes}

theorem of_parsePath (h : s.parsePath url = .ok t) :
    (match find (ofString "/") url with
    | none => { s with app := url }
    | some pos =>
      { s with
        app := url.take pos
        streamid := if (url.drop (pos + 1)).getLast? = some (ascii '/')
          then (url.drop (pos + 1)).dropLast else url.drop (pos + 1) }) = t := by
  revert h
  unfold parsePath
  cases find (ofString "/") url with
  | none => exact Except.ok.inj
  | some pos =>
    intro h
    obtain ⟨v, hv, h⟩ := bind_eq_ok.mp h
    rw [← Except.ok.inj h, ← eq_of_dropSlash hv]

/-- **Without a fault** `parse` comes to the same session. -/
theorem parse_of_parseChecked (h : s.parseChecked url = .ok t) : s.parse url = t := by
  revert h
  unfold parseChecked parse
  cases find (ofString "://") url with
  | none =>
    simp only [parseHost]
    cases rfind (ofString ":") (upTo url (find (ofString "/") url)) with
    | none => exact Except.ok.inj
    | some hostPos => exact of_parsePath
  | some schemaPos =>
    simp only [parseHost]
    generalize url.drop (schemaPos + 3) = rest
    cases rfind (ofString ":") (upTo rest (find (ofString "/") rest)) with
    | none => exact Except.ok.inj
    | some hostPos => exact of_parsePath

end Unchecked

end RtspSession

/-! ## The parts of a url -/

/-- **The parts of a url**: the host, the port, the application and the stream, and whether a slash
stands behind the stream. -/
structure StreamUrl where
  host : Bytes
  port : Option UInt16
  app : Bytes
  stream : Bytes
  slash : Bool
  slash_notMem_host : ascii '/' ∉ host
  colon_notMem_host : ascii ':' ∉ host
  port_ne_zero : ∀ p ∈ port, p ≠ 0
  slash_notMem_app : ascii '/' ∉ app
  not_slash_stream : stream.getLast? ≠ some (ascii '/')

namespace StreamUrl

variable (u : StreamUrl)

/-- A colon and the port, if there is one. -/
def portText : Bytes := (u.port.map fun p => ofString ":" ++ decimal p.toNat).getD []

/-- The stream, and the slash behind it. -/
def path : Bytes := u.stream ++ if u.slash then ofString "/" else []

/-- **The url** of the parts. -/
def text : Bytes :=
  ofString "rtsp://" ++ u.host ++ u.portText ++ ofString "/" ++ u.app ++ ofString "/" ++ u.path

variable {u}

theorem not_slash_portText : ascii '/' ∉ u.host ++ u.portText := by
  have hdecimal : ∀ n, ascii '/' ∉ decimal n := by
    intro n hmem
    exact absurd (isDigit_of_mem_decimal _ hmem) (by decide)
  rw [List.mem_append, not_or]
  refine ⟨u.slash_notMem_host, ?_⟩
  cases hport : u.port with
  | none => simp [portText, hport]
  | some p =>
    simp only [portText, hport, Option.map_some, Option.getD_some, List.mem_append, not_or]
    exact ⟨by decide, hdecimal _⟩

theorem find_schema (u : StreamUrl) :
    find (ofString "://") u.text = some (ofString "rtsp").length := by
  have htext : u.text = ofString "rtsp" ++ (ofString "://" ++
      (u.host ++ u.portText ++ ofString "/" ++ u.app ++ ofString "/" ++ u.path)) := by
    simp [text, ofString]
  rw [htext]
  exact find_first (by decide) _

end StreamUrl

namespace RtspSession

variable {s : RtspSession} {u : StreamUrl}

/-- The session behind the schema of the url. -/
theorem parseChecked_text (s : RtspSession) (u : StreamUrl) : s.parseChecked u.text =
    parseHost { s with schema := ofString "rtsp" }
      (u.host ++ u.portText ++ (ofString "/" ++ (u.app ++ (ofString "/" ++ u.path)))) := by
  rw [parseChecked, u.find_schema]
  simp [StreamUrl.text, ofString]

/-- Without a port the application and the stream are not looked for. -/
theorem parseChecked_of_port_none (hport : u.port = none) : s.parseChecked u.text =
    .ok { s with schema := ofString "rtsp", host := u.host, vhost := u.host } := by
  have htext : u.portText = [] := by rw [StreamUrl.portText, hport]; rfl
  have hslash : find (ofString "/") (u.host ++ (ofString "/" ++ (u.app ++
      (ofString "/" ++ u.path)))) = some u.host.length := find_first u.slash_notMem_host _
  have hcolon : rfind (ofString ":") u.host = none := rfind_none u.colon_notMem_host
  rw [parseChecked_text, htext, List.append_nil, parseHost, hslash]
  simp only [upTo, List.take_left, hcolon]

/-- The path of a stream is what stands behind the first slash. -/
theorem parsePath_text {app : Bytes} (happ : ascii '/' ∉ app) (path : Bytes) :
    s.parsePath (app ++ (ofString "/" ++ path)) =
      (dropSlash path).map fun stream => { s with app := app, streamid := stream } := by
  have hslash : find (ofString "/") (app ++ (ofString "/" ++ path)) = some app.length :=
    find_first happ _
  have hrest : (app ++ (ofString "/" ++ path)).drop (app.length + 1) = path := by
    rw [← List.drop_drop, List.drop_left]
    rfl
  rw [parsePath, hslash]
  simp only [List.take_left, hrest]
  cases dropSlash path <;> rfl

/-- With a port the path of the stream is taken without the slash at its end. -/
theorem parseChecked_of_port {p : UInt16} (hport : u.port = some p) : s.parseChecked u.text =
    (dropSlash u.path).map fun stream =>
      { s with
        schema := ofString "rtsp", host := u.host, port := p, vhost := u.host, app := u.app,
        streamid := stream } := by
  have htext : u.portText = ofString ":" ++ decimal p.toNat := by
    rw [StreamUrl.portText, hport]
    rfl
  have hcolon : ascii ':' ∉ decimal p.toNat := by
    intro hmem
    exact absurd (isDigit_of_mem_decimal _ hmem) (by decide)
  -- the host and the port end at the first slash, and the host at the last colon in front of it
  have hslash : find (ofString "/") (u.host ++ u.portText ++ (ofString "/" ++ (u.app ++
      (ofString "/" ++ u.path)))) = some (u.host ++ u.portText).length :=
    find_first StreamUrl.not_slash_portText _
  have hhost : rfind (ofString ":") (u.host ++ u.portText) = some u.host.length := by
    rw [htext]
    exact rfind_last hcolon _
  have hdigits : (u.host ++ u.portText).drop (u.host.length + 1) = decimal p.toNat := by
    rw [← List.drop_drop, List.drop_left, htext]
    rfl
  have hrest : (u.host ++ u.portText ++ (ofString "/" ++ (u.app ++ (ofString "/" ++
      u.path)))).drop ((u.host ++ u.portText).length + 1) = u.app ++ (ofString "/" ++ u.path) := by
    rw [← List.drop_drop, List.drop_left]
    rfl
  rw [parseChecked_text, parseHost, hslash]
  simp only [upTo, List.take_left, hhost, after, hrest, hdigits, sscanfU16_decimal,
    Option.getD_some, parsePath_text u.slash_notMem_app]
  rw [List.append_assoc, List.take_left]

/-! ## Which urls are taken apart -/

/-- **The parts of a url are read back**: no empty string is asked for its last byte, and the host,
the application, the stream and the port are those of the url. -/
def ParsesBack (s : RtspSession) (u : StreamUrl) : Prop :=
  ∃ t, s.parseChecked u.text = .ok t ∧ t.host = u.host ∧ t.app = u.app ∧ t.streamid = u.stream ∧
    ∀ p ∈ u.port, t.port = p

theorem dropSlash_path (h : u.stream ≠ [] ∨ u.slash) : dropSlash u.path = .ok u.stream := by
  cases hslash : u.slash with
  | true =>
    rw [StreamUrl.path, hslash, if_pos rfl]
    exact dropSlash_concat u.stream (ascii '/')
  | false =>
    have hne : u.stream ≠ [] := h.resolve_right (by rw [hslash]; exact Bool.false_ne_true)
    obtain ⟨w, b, hw⟩ := (List.eq_nil_or_concat u.stream).resolve_left hne
    have hb := u.not_slash_stream
    rw [List.concat_eq_append] at hw
    rw [hw, List.getLast?_concat, ne_eq, Option.some.injEq] at hb
    rw [StreamUrl.path, hslash, if_neg Bool.false_ne_true, List.append_nil, hw, dropSlash_concat,
      if_neg hb]

/-- An empty path has no last byte. -/
theorem dropSlash_path_nil (hstream : u.stream = []) (hslash : u.slash = false) :
    dropSlash u.path = .error .back := by
  rw [StreamUrl.path, hstream, hslash]
  rfl

/-- **A url is taken apart** exactly if it has a port, and a stream or the slash behind one;
without a port exactly if the session has the application and the stream already. -/
theorem parsesBack_iff (s : RtspSession) (u : StreamUrl) : s.ParsesBack u ↔
    (u.port.isSome ∧ (u.stream ≠ [] ∨ u.slash)) ∨
      (u.port = none ∧ s.app = u.app ∧ s.streamid = u.stream) := by
  cases hport : u.port with
  | none =>
    simp only [ParsesBack, parseChecked_of_port_none hport, Except.ok.injEq, exists_eq_left',
      hport, Option.isSome_none, Bool.false_eq_true, false_and, false_or, true_and]
    constructor
    · rintro ⟨happ, hstream, -⟩
      exact ⟨happ, hstream⟩
    · rintro ⟨happ, hstream⟩
      exact ⟨happ, hstream, fun p hp => by cases hp⟩
  | some p =>
    rw [ParsesBack, parseChecked_of_port hport]
    constructor
    · rintro ⟨t, ht, -⟩
      refine .inl ⟨rfl, ?_⟩
      -- an empty path has no last byte to be dropped
      by_contra hnone
      rw [not_or, not_not, Bool.not_eq_true] at hnone
      rw [dropSlash_path_nil hnone.1 hnone.2] at ht
      cases ht
    · rintro (⟨-, hpath⟩ | ⟨hnone, -⟩)
      · refine ⟨_, by rw [dropSlash_path hpath]; rfl, rfl, rfl, rfl, fun q hq => ?_⟩
        rw [hport, Option.mem_some_iff] at hq
        exact hq
      · cases hnone

/-- Without a port a new session does not get the application of the url. -/
theorem not_parsesBack : ¬ ∀ (s : RtspSession) (u : StreamUrl), s.ParsesBack u := by
  intro h
  let u : StreamUrl :=
    { host := ofString "10.0.0.1", port := none, app := ofString "live", stream := ofString "cam",
      slash := false
      slash_notMem_host := by decide
      colon_notMem_host := by decide
      port_ne_zero := by intro p hp; cases hp
      slash_notMem_app := by decide
      not_slash_stream := by decide }
  obtain ⟨t, ht, -, happ, -⟩ := h {} u
  rw [parseChecked_of_port_none (u := u) rfl] at ht
  have hnil : t.app = [] := by rw [← Except.ok.inj ht]
  rw [hnil] at happ
  cases happ

end RtspSession

end CppServerStudio
