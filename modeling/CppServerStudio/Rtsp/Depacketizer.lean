import CppServerStudio.Library.Fragments
import CppServerStudio.Util.Bytes

/-!
# Depacketizing

What the receiver of a stream does with the payloads of its packets: the units of a STAP-A packet
are taken apart by their 16-bit sizes, and the fragments of a series of FU-A packets are
concatenated behind the header byte that its indicator and FU header hold.

## Main definitions

* `depacketize`: the NAL units of a list of payloads
* `stapA`, `fuA`: the payloads that carry a unit in one packet, or in a series

## Main results

* `depacketize_stapA`, `depacketize_fuA`: the unit is given back
* `wellMarked_stapA`, `wellMarked_fuA`: the start, end and marker bits
-/

namespace CppServerStudio

open Fragments

/-- The units of a STAP-A packet, behind its indicator. -/
def stapUnits (bs : Bytes) : Option (List Bytes) :=
  match bs with
  | [] => some []
  | [_] => none
  | hi :: lo :: rest =>
    if hi.toNat * 256 + lo.toNat ≤ rest.length then
      (stapUnits (rest.drop (hi.toNat * 256 + lo.toNat))).map
        (rest.take (hi.toNat * 256 + lo.toNat) :: ·)
    else none
termination_by bs.length
decreasing_by
  rw [List.length_drop, List.length_cons, List.length_cons]
  omega

/-- The start bit of an FU header. -/
def startBit (fu : Byte) : Bool := ¬ fu &&& 0x80 = 0

/-- The end bit of an FU header. -/
def endBit (fu : Byte) : Bool := ¬ fu &&& 0x40 = 0

/-- The payload of an FU-A packet behind its indicator, when `unit` is the beginning of a
fragmented unit: the units it completes, and the beginning that is left. -/
def receiveFuA (indicator : Byte) : Option Bytes → Bytes → Option (List Bytes × Option Bytes)
  | none, fu :: fragment =>
    if startBit fu && !endBit fu then
      some ([], some (((indicator &&& 0xE0) ||| (fu &&& 0x1F)) :: fragment))
    else none
  | some front, fu :: fragment =>
    if startBit fu then none
    else if endBit fu then some ([front ++ fragment], none)
    else some ([], some (front ++ fragment))
  | _, [] => none

/-- One payload. Any type other than STAP-A and FU-A is a unit of its own. -/
def receive (unit : Option Bytes) : Bytes → Option (List Bytes × Option Bytes)
  | [] => none
  | indicator :: rest =>
    if indicator &&& 0x1F = 28 then receiveFuA indicator unit rest
    else if unit.isSome then none
    else if indicator &&& 0x1F = 24 then (stapUnits rest).map (·, none)
    else some ([indicator :: rest], none)

/-- **Depacketizing** a list of payloads. No unit may be left unfinished. -/
def depacketize : Option Bytes → List Bytes → Option (List Bytes)
  | none, [] => some []
  | some _, [] => none
  | unit, payload :: payloads => do
    let (units, unit) ← receive unit payload
    let others ← depacketize unit payloads
    some (units ++ others)

/-! ## The payloads of a unit -/

/-- The indicator of the FU-A packets of a unit with the header byte `h`. -/
def fuIndicator (h : Byte) : Byte := (h &&& 0xE0) ||| 28

/-- The payload of a STAP-A packet with the single unit `nal`, whose header byte is `h`. -/
def stapA (h : Byte) (nal : Bytes) : Bytes :=
  ((h &&& 0xE0) ||| 24) :: be16 (UInt16.ofNat nal.length) ++ nal

/-- The FU-A payloads behind the first one, with their marker bits. -/
def fuTail (h : Byte) (isMark : Bool) : List Bytes → List (Bytes × Bool)
  | [] => []
  | [fragment] => [(fuIndicator h :: ((h &&& 0x1F) ||| 0x40) :: fragment, isMark)]
  | fragment :: fragments =>
    (fuIndicator h :: (h &&& 0x1F) :: fragment, false) :: fuTail h isMark fragments

/-- The payloads of a series of FU-A packets, with their marker bits. -/
def fuA (h : Byte) (isMark : Bool) (first : Bytes) (fragments : List Bytes) :
    List (Bytes × Bool) :=
  (fuIndicator h :: ((h &&& 0x1F) ||| 0x80) :: first, false) :: fuTail h isMark fragments

/-! The bits of the header bytes. -/

theorem header_bits (h : Byte) :
    (((h &&& 0xE0) ||| 24) &&& 0x1F = 24 ∧ fuIndicator h &&& 0x1F = 28 ∧
      (fuIndicator h &&& 0xE0) ||| (((h &&& 0x1F) ||| 0x80) &&& 0x1F) = h) ∧
    (startBit ((h &&& 0x1F) ||| 0x80) = true ∧ endBit ((h &&& 0x1F) ||| 0x80) = false ∧
      ((h &&& 0x1F) ||| 0x80) &&& 0x7F = h &&& 0x1F) ∧
    (startBit (h &&& 0x1F) = false ∧ endBit (h &&& 0x1F) = false ∧
      h &&& 0x1F &&& 0x7F = h &&& 0x1F) ∧
    startBit ((h &&& 0x1F) ||| 0x40) = false ∧ endBit ((h &&& 0x1F) ||| 0x40) = true ∧
      ((h &&& 0x1F) ||| 0x40) &&& 0x7F = (h &&& 0x1F) ||| 0x40 := by
  revert h
  exact forall_byte (by decide +kernel)

theorem stapA_type (h : Byte) : ((h &&& 0xE0) ||| 24) &&& 0x1F = 24 := (header_bits h).1.1

theorem fuIndicator_type (h : Byte) : fuIndicator h &&& 0x1F = 28 := (header_bits h).1.2.1

theorem fuIndicator_header (h : Byte) :
    (fuIndicator h &&& 0xE0) ||| (((h &&& 0x1F) ||| 0x80) &&& 0x1F) = h := (header_bits h).1.2.2

theorem first_bits (h : Byte) :
    startBit ((h &&& 0x1F) ||| 0x80) = true ∧ endBit ((h &&& 0x1F) ||| 0x80) = false ∧
      ((h &&& 0x1F) ||| 0x80) &&& 0x7F = h &&& 0x1F := (header_bits h).2.1

theorem middle_bits (h : Byte) :
    startBit (h &&& 0x1F) = false ∧ endBit (h &&& 0x1F) = false ∧
      h &&& 0x1F &&& 0x7F = h &&& 0x1F := (header_bits h).2.2.1

theorem last_bits (h : Byte) :
    startBit ((h &&& 0x1F) ||| 0x40) = false ∧ endBit ((h &&& 0x1F) ||| 0x40) = true ∧
      ((h &&& 0x1F) ||| 0x40) &&& 0x7F = (h &&& 0x1F) ||| 0x40 := (header_bits h).2.2.2

/-! ## The unit is given back -/

/-- The 16-bit size of a unit is read back. -/
theorem be16_size {n : ℕ} (hn : n < 2 ^ 16) :
    ∃ hi lo : Byte, be16 (UInt16.ofNat n) = [hi, lo] ∧ hi.toNat * 256 + lo.toNat = n := by
  refine ⟨_, _, rfl, ?_⟩
  simp only [UInt16.toNat_toUInt8, UInt16.toNat_shiftRight, UInt16.toNat_ofNat']
  simp [Nat.shiftRight_eq_div_pow]
  omega

/-- A unit in one STAP-A packet is given back. -/
theorem depacketize_stapA (h : Byte) {nal : Bytes} (hlen : nal.length < 2 ^ 16) :
    depacketize none [stapA h nal] = some [nal] := by
  obtain ⟨hi, lo, hbytes, hsize⟩ := be16_size hlen
  have hunits : stapUnits (hi :: lo :: nal) = some [nal] := by
    rw [stapUnits, hsize, if_pos le_rfl, List.drop_length, List.take_length, stapUnits]
    rfl
  rw [stapA, hbytes]
  simp [depacketize, receive, stapA_type, hunits]

theorem depacketize_fuTail (h : Byte) (isMark : Bool) {fragments : List Bytes}
    (hne : fragments ≠ []) (front : Bytes) :
    depacketize (some front) ((fuTail h isMark fragments).map Prod.fst) =
      some [front ++ fragments.flatten] := by
  induction fragments generalizing front with
  | nil => exact absurd rfl hne
  | cons fragment fragments ih =>
    cases fragments with
    | nil =>
      obtain ⟨hs, he, -⟩ := last_bits h
      simp [fuTail, depacketize, receive, receiveFuA, fuIndicator_type, hs, he]
    | cons fragment' fragments =>
      obtain ⟨hs, he, -⟩ := middle_bits h
      have hrest := ih (by simp) (front ++ fragment)
      simpa [fuTail, depacketize, receive, receiveFuA, fuIndicator_type, hs, he] using hrest

/-- A unit in a series of FU-A packets is given back. -/
theorem depacketize_fuA (h : Byte) (isMark : Bool) (first : Bytes) {fragments : List Bytes}
    (hne : fragments ≠ []) :
    depacketize none ((fuA h isMark first fragments).map Prod.fst) =
      some [h :: first ++ fragments.flatten] := by
  obtain ⟨hs, he, -⟩ := first_bits h
  have hrest := depacketize_fuTail h isMark hne (h :: first)
  simpa [fuA, depacketize, receive, receiveFuA, fuIndicator_type, hs, he, fuIndicator_header]
    using hrest

/-! ## Start, end and marker bits -/

/-- The payload of an FU-A packet. -/
def isFuA : Bytes → Bool
  | indicator :: _ => indicator &&& 0x1F = 28
  | [] => false

/-- The start bit of a payload. -/
def fuStart : Bytes → Bool
  | _ :: fu :: _ => startBit fu
  | _ => false

/-- The end bit of a payload. -/
def fuEnd : Bytes → Bool
  | _ :: fu :: _ => endBit fu
  | _ => false

/-- **The bits of a list of payloads with their marker bits**: in a series of FU-A packets, of
which there are at least two, the start bit is on the first packet only and the end bit on the last
only; the marker bit is on the last packet only, and only of a unit that is marked. -/
structure WellMarked (isMark : Bool) (views : List (Bytes × Bool)) : Prop where
  series : (∃ v ∈ views, isFuA v.1) → 2 ≤ views.length ∧ ∀ i v, views[i]? = some v →
    (fuStart v.1 = true ↔ i = 0) ∧ (fuEnd v.1 = true ↔ i + 1 = views.length)
  mark : ∀ i v, views[i]? = some v → (v.2 = true ↔ isMark = true ∧ i + 1 = views.length)

theorem wellMarked_stapA (h : Byte) (nal : Bytes) (isMark : Bool) :
    WellMarked isMark [(stapA h nal, isMark)] := by
  refine ⟨?_, ?_⟩
  · rintro ⟨v, hv, hfu⟩
    rw [List.mem_singleton] at hv
    have htype : ((h &&& 0xE0) ||| 24) &&& 0x1F = 28 := by simpa [hv, stapA, isFuA] using hfu
    rw [stapA_type] at htype
    exact absurd htype (by decide)
  · intro i v hv
    obtain ⟨rfl, rfl⟩ : i = 0 ∧ v = (stapA h nal, isMark) := by
      cases i <;> simp_all
    simp

theorem fuTail_cons_cons (h : Byte) (isMark : Bool) (fragment fragment' : Bytes)
    (fragments : List Bytes) :
    fuTail h isMark (fragment :: fragment' :: fragments) =
      (fuIndicator h :: (h &&& 0x1F) :: fragment, false) ::
        fuTail h isMark (fragment' :: fragments) := rfl

@[simp] theorem length_fuTail (h : Byte) (isMark : Bool) (fragments : List Bytes) :
    (fuTail h isMark fragments).length = fragments.length := by
  induction fragments with
  | nil => rfl
  | cons fragment fragments ih =>
    cases fragments with
    | nil => rfl
    | cons fragment' fragments =>
      rw [fuTail_cons_cons, List.length_cons, ih, List.length_cons, List.length_cons,
        List.length_cons]

theorem fuTail_bits (h : Byte) (isMark : Bool) (fragments : List Bytes) {i : ℕ} {v : Bytes × Bool}
    (hv : (fuTail h isMark fragments)[i]? = some v) :
    fuStart v.1 = false ∧ (fuEnd v.1 = true ↔ i + 1 = fragments.length) ∧
      (v.2 = true ↔ isMark = true ∧ i + 1 = fragments.length) := by
  -- Induction on the fragments; the last one has the end bit, those in front have neither.
  induction fragments generalizing i with
  | nil => simp [fuTail] at hv
  | cons fragment fragments ih =>
    cases fragments with
    | nil =>
      obtain ⟨hs, he, -⟩ := last_bits h
      cases i with
      | zero =>
        obtain rfl : _ = v := by simpa [fuTail] using hv
        simp [fuStart, fuEnd, hs, he]
      | succ i => simp [fuTail] at hv
    | cons fragment' fragments =>
      obtain ⟨hs, he, -⟩ := middle_bits h
      cases i with
      | zero =>
        obtain rfl : _ = v := by simpa [fuTail] using hv
        simp [fuStart, fuEnd, hs, he]
      | succ i =>
        have hrest := ih (i := i) (by simpa [fuTail] using hv)
        simpa using hrest

/-- **The bits of a series.** -/
theorem wellMarked_fuA (h : Byte) (isMark : Bool) (first : Bytes) {fragments : List Bytes}
    (hne : fragments ≠ []) : WellMarked isMark (fuA h isMark first fragments) := by
  obtain ⟨hs, he, -⟩ := first_bits h
  have hpos := List.length_pos_of_ne_nil hne
  have hbits : ∀ i v, (fuA h isMark first fragments)[i]? = some v →
      ((fuStart v.1 = true ↔ i = 0) ∧ (fuEnd v.1 = true ↔ i + 1 = fragments.length + 1)) ∧
      (v.2 = true ↔ isMark = true ∧ i + 1 = fragments.length + 1) := by
    intro i v hv
    cases i with
    | zero =>
      obtain rfl : _ = v := by simpa [fuA] using hv
      simp [fuStart, fuEnd, hs, he, hne]
    | succ i =>
      obtain ⟨hstart, hend, hmark⟩ := fuTail_bits h isMark fragments (by simpa [fuA] using hv)
      simpa [hstart] using ⟨hend, hmark⟩
  have hlen : (fuA h isMark first fragments).length = fragments.length + 1 := by simp [fuA]
  rw [← hlen] at hbits
  exact ⟨fun _ => ⟨by omega, fun i v hv => (hbits i v hv).1⟩, fun i v hv => (hbits i v hv).2⟩

/-- The payloads of a series are as long as their fragments and the two header bytes. -/
theorem length_of_mem_fuTail (h : Byte) (isMark : Bool) {fragments : List Bytes} {n : ℕ}
    (hn : ∀ fragment ∈ fragments, fragment.length ≤ n) {v : Bytes × Bool}
    (hv : v ∈ fuTail h isMark fragments) : v.1.length ≤ n + 2 := by
  induction fragments with
  | nil => simp [fuTail] at hv
  | cons fragment fragments ih =>
    have hfirst := hn fragment (by simp)
    cases fragments with
    | nil =>
      obtain rfl : v = _ := by simpa [fuTail] using hv
      simpa using hfirst
    | cons fragment' fragments =>
      rw [fuTail_cons_cons, List.mem_cons] at hv
      rcases hv with rfl | hv
      · simpa using hfirst
      · exact ih (fun f hf => hn f (by simp [hf])) hv

end CppServerStudio
