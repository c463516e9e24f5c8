import CppServerStudio.Http.Isolation
import CppServerStudio.Http.RoundTrip

/-!
# Parameters with empty values

The state in front of a parameter value takes one byte without asking whether it is a `&`. An empty
value therefore takes the `&` behind it for its first byte and goes on to the end of the next
parameter, whose own value may be empty again; an empty value at the end of a target meets a blank
and makes the request invalid.

## Main definitions

* `emptyRun L`: the number of empty values at the end of a list of parameters
* `keptParams L`: the parameters that no empty value in front of them takes
* `groupParams L`: the parameters that the parser reads
* `KeepsBoundaries L`: each key keeps its last value

## Main results

* `query_groupParams`: what the parser reads has the same text
* `emptyParams_iff`: when the parameters of a request are those it was built with
-/

namespace CppServerStudio

open Scanning CanonicalRequest

/-- No separator of a request line. -/
def IsPlain (ch : Byte) : Prop :=
  ch ≠ ascii '=' ∧ ch ≠ ascii '&' ∧ ch ≠ ascii '?' ∧ ¬ isBlank ch ∧ ch ≠ CR ∧ ch ≠ LF

instance (ch : Byte) : Decidable (IsPlain ch) :=
  inferInstanceAs (Decidable (ch ≠ ascii '=' ∧ ch ≠ ascii '&' ∧ ch ≠ ascii '?' ∧ ¬ isBlank ch ∧
    ch ≠ CR ∧ ch ≠ LF))

/-- A parameter with a non-empty key, and no separator in its key and value. -/
@[mk_iff] structure PlainParam (kv : Bytes × Bytes) : Prop where
  key_ne : kv.1 ≠ []
  key_plain : ∀ ch ∈ kv.1, IsPlain ch
  value_plain : ∀ ch ∈ kv.2, IsPlain ch

instance (kv : Bytes × Bytes) : Decidable (PlainParam kv) :=
  decidable_of_iff (kv.1 ≠ [] ∧ kv.1.all (fun ch => IsPlain ch) ∧ kv.2.all fun ch => IsPlain ch) <|
    by simp only [plainParam_iff, List.all_eq_true, decide_eq_true_eq]

/-- The number of empty values at the end of a list of parameters. -/
def emptyRun (L : List (Bytes × Bytes)) : ℕ := (L.reverse.takeWhile fun kv => kv.2 = []).length

/-- **The parameters that no empty value takes away**: those with an even number of empty values
directly in front of them. -/
def keptParams (L : List (Bytes × Bytes)) : List (Bytes × Bytes) :=
  (List.range L.length).filterMap fun i => if Even (emptyRun (L.take i)) then L[i]? else none

/-- The parameters that the parser reads: an empty value goes on behind the `&`, to the end of the
next parameter. -/
def groupParams : List (Bytes × Bytes) → List (Bytes × Bytes)
  | [] => []
  | (key, []) :: kv :: L => (key, ascii '&' :: paramText kv) :: groupParams L
  | kv :: L => kv :: groupParams L

/-- **Each key keeps its last value**: the empty values at the end take each other, and the last
value of a key is not empty and is that of its last parameter that is not taken away. -/
structure KeepsBoundaries (L : List (Bytes × Bytes)) : Prop where
  even_end : Even (emptyRun L)
  kept : ∀ key value : Bytes, (lastValues L)[key]? = some value →
    value ≠ [] ∧ (lastValues (keptParams L))[key]? = some value

/-- The message of a canonical request with the parameters `L`. -/
def CanonicalRequest.withParams (q : CanonicalRequest) (L : List (Bytes × Bytes)) : Bytes :=
  q.headWith L ++ [CR, LF] ++ q.body

/-! ## Empty values in a list -/

@[simp] theorem emptyRun_nil : emptyRun [] = 0 := rfl

@[simp] theorem emptyRun_snoc (L : List (Bytes × Bytes)) (kv : Bytes × Bytes) :
    emptyRun (L ++ [kv]) = if kv.2 = [] then emptyRun L + 1 else 0 := by
  rw [emptyRun, List.reverse_append, List.reverse_singleton, List.singleton_append,
    List.takeWhile_cons]
  by_cases h : kv.2 = [] <;> simp [h, emptyRun]

theorem emptyRun_singleton (kv : Bytes × Bytes) :
    emptyRun [kv] = if kv.2 = [] then 1 else 0 := emptyRun_snoc [] kv

/-- A list that leaves no empty value open does not matter in front of another. -/
theorem even_emptyRun_append {P : List (Bytes × Bytes)} (hP : Even (emptyRun P))
    (L : List (Bytes × Bytes)) : Even (emptyRun (P ++ L)) ↔ Even (emptyRun L) := by
  induction L using List.reverseRecOn with
  | nil => simpa using hP
  | append_singleton L kv ih =>
    rw [← List.append_assoc, emptyRun_snoc, emptyRun_snoc]
    split_ifs
    · rw [Nat.even_add_one, Nat.even_add_one, ih]
    · rfl

@[simp] theorem keptParams_nil : keptParams [] = [] := rfl

theorem keptParams_snoc (L : List (Bytes × Bytes)) (kv : Bytes × Bytes) :
    keptParams (L ++ [kv]) = keptParams L ++ if Even (emptyRun L) then [kv] else [] := by
  rw [keptParams, List.length_append, List.length_singleton, List.range_succ,
    List.filterMap_append]
  congr 1
  · apply List.filterMap_congr
    intro i hi
    have hlt := List.mem_range.mp hi
    rw [List.take_append_of_le_length hlt.le, List.getElem?_append_left hlt]
  · by_cases h : Even (emptyRun L) <;> simp [h]

theorem keptParams_append {P : List (Bytes × Bytes)} (hP : Even (emptyRun P))
    (L : List (Bytes × Bytes)) : keptParams (P ++ L) = keptParams P ++ keptParams L := by
  induction L using List.reverseRecOn with
  | nil => simp
  | append_singleton L kv ih =>
    rw [← List.append_assoc, keptParams_snoc, keptParams_snoc, ih, List.append_assoc]
    simp only [even_emptyRun_append hP]

theorem keptParams_subset (L : List (Bytes × Bytes)) : keptParams L ⊆ L := by
  induction L using List.reverseRecOn with
  | nil => simp
  | append_singleton L kv ih =>
    rw [keptParams_snoc]
    apply List.append_subset.mpr ⟨fun x hx => List.mem_append_left _ (ih hx), _⟩
    split_ifs <;> simp

/-! ## What the parser reads -/

/-- The shapes of a list of parameters: an empty value with the parameter it takes, a parameter with
a value, or an empty value at the end. -/
theorem groupParams_induction {P : List (Bytes × Bytes) → Prop} (hnil : P [])
    (htakes : ∀ key kv L, P L → P ((key, []) :: kv :: L))
    (hvalue : ∀ kv L, kv.2 ≠ [] → P L → P (kv :: L)) (hopen : ∀ key, P [(key, [])]) :
    ∀ L, P L := by
  intro L
  fun_induction groupParams L with
  | case1 => exact hnil
  | case2 key kv L ih => exact htakes key kv L ih
  | case3 kv L hne ih =>
    by_cases hv : kv.2 = []
    · obtain ⟨key, value⟩ := kv
      obtain rfl : value = [] := hv
      cases L with
      | nil => exact hopen key
      | cons kv L => exact (hne key kv L rfl rfl).elim
    · exact hvalue kv L hv ih

@[simp] theorem groupParams_nil : groupParams [] = [] := rfl

@[simp] theorem groupParams_takes (key : Bytes) (kv : Bytes × Bytes) (L : List (Bytes × Bytes)) :
    groupParams ((key, []) :: kv :: L) = (key, ascii '&' :: paramText kv) :: groupParams L := rfl

theorem groupParams_value {kv : Bytes × Bytes} (hv : kv.2 ≠ []) (L : List (Bytes × Bytes)) :
    groupParams (kv :: L) = kv :: groupParams L := by
  obtain ⟨key, _ | ⟨x, value⟩⟩ := kv
  · exact absurd rfl hv
  · rfl

/-- A parameter with the empty value in front of it leaves no empty value open. -/
theorem even_emptyRun_takes (key : Bytes) (kv : Bytes × Bytes) :
    Even (emptyRun [(key, []), kv]) := by
  rw [show [(key, []), kv] = [(key, [])] ++ [kv] from rfl, emptyRun_snoc, emptyRun_singleton,
    if_pos rfl]
  split_ifs <;> simp

theorem even_emptyRun_value {kv : Bytes × Bytes} (hv : kv.2 ≠ []) : Even (emptyRun [kv]) := by
  simp [emptyRun_singleton, hv]

theorem keptParams_takes (key : Bytes) (kv : Bytes × Bytes) (L : List (Bytes × Bytes)) :
    keptParams ((key, []) :: kv :: L) = (key, []) :: keptParams L := by
  have happ := keptParams_append (even_emptyRun_takes key kv) L
  have hpair : keptParams [(key, []), kv] = [(key, [])] := by
    rw [show [(key, []), kv] = [] ++ [(key, [])] ++ [kv] from rfl, keptParams_snoc,
      keptParams_snoc]
    simp [emptyRun_singleton]
  rwa [hpair] at happ

theorem keptParams_value {kv : Bytes × Bytes} (hv : kv.2 ≠ []) (L : List (Bytes × Bytes)) :
    keptParams (kv :: L) = kv :: keptParams L := by
  have happ := keptParams_append (even_emptyRun_value hv) L
  have hone : keptParams [kv] = [kv] := keptParams_snoc [] kv
  rwa [hone] at happ

theorem groupParams_eq_nil {L : List (Bytes × Bytes)} : groupParams L = [] ↔ L = [] := by
  induction L using groupParams_induction with
  | hnil => simp
  | htakes key kv L ih => simp
  | hvalue kv L hv ih => simp [groupParams_value hv]
  | hopen key => simp [groupParams]

/-- What the parser reads has the same text. -/
theorem intercalate_groupParams (L : List (Bytes × Bytes)) :
    [ascii '&'].intercalate ((groupParams L).map paramText) =
      [ascii '&'].intercalate (L.map paramText) := by
  induction L using groupParams_induction with
  | hnil => rfl
  | htakes key kv L ih =>
    -- the `&` that the value begins with stands where the separator does
    rw [groupParams_takes, List.map_cons, List.map_cons, List.map_cons,
      List.intercalate_cons_cons]
    by_cases hL : L = []
    · simp [hL, paramText]
    · rw [List.intercalate_cons_of_ne_nil (by simpa [groupParams_eq_nil] using hL),
        List.intercalate_cons_of_ne_nil (by simpa using hL), ih]
      simp [paramText]
  | hvalue kv L hv ih =>
    rw [groupParams_value hv, List.map_cons, List.map_cons]
    by_cases hL : L = []
    · simp [hL]
    · rw [List.intercalate_cons_of_ne_nil (by simpa [groupParams_eq_nil] using hL),
        List.intercalate_cons_of_ne_nil (by simpa using hL), ih]
  | hopen key => rfl

theorem query_groupParams (L : List (Bytes × Bytes)) : query (groupParams L) = query L := by
  simp only [query, groupParams_eq_nil, intercalate_groupParams]

theorem headWith_groupParams (q : CanonicalRequest) (L : List (Bytes × Bytes)) :
    q.headWith (groupParams L) = q.headWith L := by
  rw [headWith, headWith, query_groupParams]

/-! ## The parameters that are read -/

theorem PlainParam.keyText {kv : Bytes × Bytes} (h : PlainParam kv) : KeyText kv.1 := by
  apply keyText_of_chars h.key_ne
  intro ch hch
  obtain ⟨heq, -, -, hrest⟩ := h.key_plain ch hch
  exact ⟨heq, hrest⟩

theorem PlainParam.valueText {kv : Bytes × Bytes} (h : PlainParam kv) (hv : kv.2 ≠ []) :
    ValueText kv.2 := by
  apply valueText_of_chars hv
  intro ch hch
  obtain ⟨-, hamp, -, hrest⟩ := h.value_plain ch hch
  exact ⟨hamp, hrest⟩

/-- The text of a parameter is the rest of a value that begins with the `&` in front of it. -/
theorem PlainParam.valueText_taken {kv : Bytes × Bytes} (h : PlainParam kv) :
    ValueText (ascii '&' :: paramText kv) := by
  constructor
  · decide
  · intro ch hch
    rw [paramText, List.mem_append, List.mem_cons] at hch
    rcases hch with hch | rfl | hch
    · obtain ⟨-, ha, -, hb, -, -⟩ := h.key_plain ch hch
      exact ⟨ha, hb⟩
    · constructor <;> decide
    · obtain ⟨-, ha, -, hb, -, -⟩ := h.value_plain ch hch
      exact ⟨ha, hb⟩

/-- The parser reads each of the parameters, or all but a last one whose empty value is open. -/
def ReadOrOpen (L : List (Bytes × Bytes)) : Prop :=
  (Even (emptyRun L) ∧ ∀ kv ∈ groupParams L, KeyText kv.1 ∧ ValueText kv.2) ∨
  (¬ Even (emptyRun L) ∧ ∃ G key, groupParams L = G ++ [(key, [])] ∧ KeyText key ∧
    ∀ kv ∈ G, KeyText kv.1 ∧ ValueText kv.2)

/-- A parameter `g` in front that the parser reads off the list `P`. -/
theorem ReadOrOpen.cons {g : Bytes × Bytes} {P L : List (Bytes × Bytes)} (h : ReadOrOpen L)
    (hP : Even (emptyRun P)) (hg : KeyText g.1 ∧ ValueText g.2)
    (hgroup : groupParams (P ++ L) = g :: groupParams L) : ReadOrOpen (P ++ L) := by
  rw [ReadOrOpen, even_emptyRun_append hP, hgroup]
  rcases h with ⟨heven, hall⟩ | ⟨hodd, G, key, hG, hkey, hall⟩
  · exact Or.inl ⟨heven, List.forall_mem_cons.mpr ⟨hg, hall⟩⟩
  · refine Or.inr ⟨hodd, g :: G, key, ?_, hkey, List.forall_mem_cons.mpr ⟨hg, hall⟩⟩
    rw [hG, List.cons_append]

theorem readOrOpen {L : List (Bytes × Bytes)} (hL : ∀ kv ∈ L, PlainParam kv) : ReadOrOpen L := by
  induction L using groupParams_induction with
  | hnil => exact Or.inl ⟨Even.zero, by simp⟩
  | htakes key kv L ih =>
    obtain ⟨hkey, hL⟩ := List.forall_mem_cons.mp hL
    obtain ⟨hkv, hL⟩ := List.forall_mem_cons.mp hL
    apply (ih hL).cons (even_emptyRun_takes key kv) _ (groupParams_takes key kv L)
    exact ⟨hkey.keyText, hkv.valueText_taken⟩
  | hvalue kv L hv ih =>
    obtain ⟨hkv, hL⟩ := List.forall_mem_cons.mp hL
    apply (ih hL).cons (even_emptyRun_value hv) _ (groupParams_value hv L)
    exact ⟨hkv.keyText, hkv.valueText hv⟩
  | hopen key =>
    refine Or.inr ⟨by simp [emptyRun_singleton], [], key, rfl, ?_, by simp⟩
    exact (hL (key, []) (by simp)).keyText

/-- A blank directly behind a `=` makes the request invalid. -/
theorem paraseRequest_emptyValue {p key : Bytes} {fs : List Setter} {b : Byte}
    (h : Reads .beforeUrlParamKey p fs) (hkey : KeyText key) (hb : isBlank b) (r : HttpRequest)
    (rest : Bytes) : ∃ r', HttpContext.paraseRequest ⟨r, .start⟩
      (p ++ key ++ ascii '=' :: b :: rest) = .ok (⟨r', .kInvalid⟩, false) := by
  set msg := p ++ key ++ ascii '=' :: b :: rest with hmsg
  obtain ⟨k, hp⟩ := h.run r msg ⟨key ++ ascii '=' :: b :: rest, by simp [hmsg]⟩
  have hcolon : Takes msg [ascii '='] ⟨.urlParamKey, r.applyAll fs, p.length,
      p.length + key.length, k⟩ ⟨.beforeUrlParamValue, r.applyAll fs, p.length,
      p.length + key.length + 1, p.length + key.length⟩ :=
    Takes.turn rfl (by simp [paraseSwitch])
  have hblank : Takes msg [b] ⟨.beforeUrlParamValue, r.applyAll fs, p.length,
      p.length + key.length + 1, p.length + key.length⟩ ⟨.kInvalid, r.applyAll fs, p.length,
      p.length + key.length + 1 + 1, p.length + key.length⟩ :=
    Takes.turn rfl (by simp [paraseSwitch, hb])
  have hloop := (((hp.trans (takes_key hkey)).trans hcolon).trans hblank) (rest ++ [NUL])
  have hsplit : p ++ key ++ [ascii '='] ++ [b] ++ (rest ++ [NUL]) = msg ++ [NUL] := by simp [hmsg]
  rw [hsplit] at hloop
  have hend := hloop.trans (scan_of_stop rfl _)
  refine ⟨r.applyAll fs, ?_⟩
  rw [HttpContext.paraseRequest, HttpContext.cursor, hend]
  rfl

namespace CanonicalRequest

variable (q : CanonicalRequest) {L : List (Bytes × Bytes)}

/-- The parser reads the parameters off when no empty value is open. -/
theorem paraseRequest_withParams (hG : ∀ kv ∈ groupParams L, KeyText kv.1 ∧ ValueText kv.2) :
    ∃ ctx, HttpContext.paraseRequest {} (q.withParams L) = .ok (ctx, true) ∧
      ctx.request.requestParams = lastValues (groupParams L) := by
  have hread := paraseRequest_head (q.reads_headWith hG) {} q.body
  rw [headWith_groupParams, applyAll_settersWith] at hread
  refine ⟨_, hread, ?_⟩
  rw [HttpRequest.requestParams_finishHead]

/-- An empty value that is open at the end makes the request invalid. -/
theorem paraseRequest_openEnd {G : List (Bytes × Bytes)} {key : Bytes}
    (hG : ∀ kv ∈ G, KeyText kv.1 ∧ ValueText kv.2) (hkey : KeyText key)
    (hL : groupParams L = G ++ [(key, [])]) :
    ∃ r, HttpContext.paraseRequest {} (q.withParams L) = .ok (⟨r, .kInvalid⟩, false) := by
  have hmethod : Reads .inUrl ([] ++ q.method ++ [SP]) [.method ([] ++ q.method)] :=
    .method (by simp) q.method_ne q.method_upper (by decide)
  have hpairs := reads_pairs hG (hmethod.query q.url_chars)
  have hend := paraseRequest_emptyValue hpairs hkey (b := SP) (by decide) {}
    (q.protocol ++ [ascii '/'] ++ q.version ++ [CR, LF] ++ q.headers.flatMap headerLine ++
      [CR, LF] ++ q.body)
  obtain ⟨r, hend⟩ := hend
  refine ⟨r, ?_⟩
  rw [← hend, withParams, ← headWith_groupParams, headWith, hL, query, if_neg (by simp),
    List.map_append, List.map_singleton, intercalate_concat]
  congr 1
  simp [paramText]

end CanonicalRequest

/-! ## The values of the keys -/

/-- How a parameter `g` that is read and a parameter `o` that is kept correspond: an empty value has
taken a text that begins with `&`. -/
def ReadAs (g o : Bytes × Bytes) : Prop :=
  g.1 = o.1 ∧ (g.2 = o.2 ∧ o.2 ≠ [] ∨ o.2 = [] ∧ ascii '&' ∈ g.2)

theorem forall₂_readAs {L : List (Bytes × Bytes)} (heven : Even (emptyRun L)) :
    List.Forall₂ ReadAs (groupParams L) (keptParams L) := by
  induction L using groupParams_induction with
  | hnil => exact .nil
  | htakes key kv L ih =>
    have hL := (even_emptyRun_append (even_emptyRun_takes key kv) L).mp heven
    rw [groupParams_takes, keptParams_takes]
    exact .cons ⟨rfl, Or.inr ⟨rfl, List.mem_cons_self⟩⟩ (ih hL)
  | hvalue kv L hv ih =>
    have hL := (even_emptyRun_append (even_emptyRun_value hv) L).mp heven
    rw [groupParams_value hv, keptParams_value hv]
    exact .cons ⟨rfl, Or.inl ⟨rfl, hv⟩⟩ (ih hL)
  | hopen key => simp [emptyRun_singleton] at heven

/-- A key is read exactly when it is kept, and its last values correspond. -/
theorem lastValues_cases {L : List (Bytes × Bytes)} (heven : Even (emptyRun L)) (key : Bytes) :
    ((lastValues (groupParams L))[key]? = none ∧ (lastValues (keptParams L))[key]? = none) ∨
      ∃ g o, (lastValues (groupParams L))[key]? = some g.2 ∧
        (lastValues (keptParams L))[key]? = some o.2 ∧ ReadAs g o := by
  have hcases := @find?_reverse_cases _ _ _ (fun kv => decide (kv.1 = key))
    (fun kv => decide (kv.1 = key)) _ _ (forall₂_readAs heven) fun g o h => by rw [h.1]
  rw [getElem?_lastValues, getElem?_lastValues]
  rcases hcases with ⟨hg, ho⟩ | ⟨g, o, hg, ho, h⟩
  · exact Or.inl ⟨by rw [hg]; rfl, by rw [ho]; rfl⟩
  · exact Or.inr ⟨g, o, by rw [hg]; rfl, by rw [ho]; rfl, h⟩

/-- The keys keep their last values exactly when those are not empty and kept. -/
theorem lastValues_groupParams_eq_iff {L : List (Bytes × Bytes)} (hL : ∀ kv ∈ L, PlainParam kv)
    (heven : Even (emptyRun L)) :
    lastValues (groupParams L) = lastValues L ↔
      ∀ key value : Bytes, (lastValues L)[key]? = some value →
        value ≠ [] ∧ (lastValues (keptParams L))[key]? = some value := by
  constructor
  · intro h key value hvalue
    have hread := hvalue
    rw [← h] at hread
    rcases lastValues_cases heven key with ⟨hg, -⟩ | ⟨g, o, hg, ho, -, hgo⟩
    · rw [hg] at hread
      cases hread
    · obtain rfl : g.2 = value := Option.some.inj (hg.symm.trans hread)
      rcases hgo with ⟨hgo, hne⟩ | ⟨-, hamp⟩
      · rw [hgo]
        exact ⟨hne, ho⟩
      -- a value with a `&` is no value of the list
      · obtain ⟨-, ha, -⟩ :=
          (hL _ (mem_of_getElem?_lastValues hvalue)).value_plain _ hamp
        exact absurd rfl ha
  · intro h
    apply Std.ExtTreeMap.ext_getElem?
    intro key
    cases hvalue : (lastValues L)[key]? with
    | none =>
      have hnone := getElem?_lastValues_eq_none.mp hvalue
      have hkept : (lastValues (keptParams L))[key]? = none :=
        getElem?_lastValues_eq_none.mpr fun kv hkv => hnone kv (keptParams_subset L hkv)
      rcases lastValues_cases heven key with ⟨hg, -⟩ | ⟨g, o, -, ho, -⟩
      · exact hg
      · rw [hkept] at ho
        cases ho
    | some value =>
      obtain ⟨hne, hkept⟩ := h key value hvalue
      rcases lastValues_cases heven key with ⟨-, ho⟩ | ⟨g, o, hg, ho, -, hgo⟩
      · rw [hkept] at ho
        cases ho
      · obtain rfl : o.2 = value := Option.some.inj (ho.symm.trans hkept)
        rcases hgo with ⟨hgo, -⟩ | ⟨hnil, -⟩
        · rw [hg, hgo]
        · exact absurd hnil hne

/-- **When the parameters of a request are parsed as they were built**: for every list of parameters
with non-empty keys and no separators inside, exactly when each key keeps its last value. -/
theorem emptyParams_iff (q : CanonicalRequest) {L : List (Bytes × Bytes)}
    (hL : ∀ kv ∈ L, PlainParam kv) :
    (∃ ctx, HttpContext.paraseRequest {} (q.withParams L) = .ok (ctx, true) ∧
      ctx.request.requestParams = lastValues L) ↔ KeepsBoundaries L := by
  rcases readOrOpen hL with ⟨heven, hG⟩ | ⟨hodd, G, key, hG, hkey, hread⟩
  · obtain ⟨ctx, hok, hparams⟩ := q.paraseRequest_withParams hG
    have hiff := lastValues_groupParams_eq_iff hL heven
    constructor
    · rintro ⟨ctx', hok', hparams'⟩
      rw [hok] at hok'
      obtain ⟨rfl, -⟩ := Prod.mk.inj (Except.ok.inj hok')
      exact ⟨heven, hiff.mp (hparams.symm.trans hparams')⟩
    · intro h
      exact ⟨ctx, hok, hparams.trans (hiff.mpr h.kept)⟩
  · constructor
    · rintro ⟨ctx, hok, -⟩
      obtain ⟨r, hinvalid⟩ := q.paraseRequest_openEnd hread hkey hG
      rw [hinvalid] at hok
      cases hok
    · intro h
      exact absurd h.even_end hodd

/-- In `a=&b=x&a=1&b=2` the first parameter takes the second, and both keys have later ones. -/
theorem emptyParams_taken : ∃ ctx,
    HttpContext.paraseRequest {} (CanonicalRequest.getSlash.withParams
      [(ofString "a", []), (ofString "b", ofString "x"), (ofString "a", ofString "1"),
        (ofString "b", ofString "2")]) = .ok (ctx, true) ∧
      ctx.request.requestParams = lastValues
        [(ofString "a", []), (ofString "b", ofString "x"), (ofString "a", ofString "1"),
          (ofString "b", ofString "2")] := by
  refine (emptyParams_iff CanonicalRequest.getSlash (by decide)).mpr ⟨by decide, ?_⟩
  intro key value h
  have hkept : keptParams [(ofString "a", []), (ofString "b", ofString "x"),
      (ofString "a", ofString "1"), (ofString "b", ofString "2")] =
      [(ofString "a", []), (ofString "a", ofString "1"), (ofString "b", ofString "2")] := by
    decide
  rw [getElem?_lastValues] at h
  rw [hkept, getElem?_lastValues]
  by_cases hb : ofString "b" = key
  · obtain rfl : ofString "2" = value := by simpa [hb] using h
    exact ⟨by decide, by simp [hb]⟩
  · by_cases ha : ofString "a" = key
    · obtain rfl : ofString "1" = value := by simpa [hb, ha] using h
      exact ⟨by decide, by simp [hb, ha]⟩
    · simp [hb, ha] at h

/-- In `a=&b=1` the value of `a` takes the parameter `b`. -/
theorem not_emptyParams :
    ¬ ∀ (q : CanonicalRequest) (L : List (Bytes × Bytes)), (∀ kv ∈ L, PlainParam kv) →
      ∃ ctx, HttpContext.paraseRequest {} (q.withParams L) = .ok (ctx, true) ∧
        ctx.request.requestParams = lastValues L := by
  intro h
  obtain ⟨ctx, hok, hparams⟩ := h CanonicalRequest.getSlash
    [(ofString "a", []), (ofString "b", ofString "1")] (by decide)
  have hread : ∀ kv ∈ groupParams [(ofString "a", []), (ofString "b", ofString "1")],
      KeyText kv.1 ∧ ValueText kv.2 := by
    rw [groupParams_takes, groupParams_nil, List.forall_mem_singleton]
    exact ⟨.intro (by decide) (by simp), .intro (by decide) (forall_mem_of_all (by decide))⟩
  obtain ⟨ctx', hok', hparams'⟩ := CanonicalRequest.getSlash.paraseRequest_withParams hread
  rw [hok] at hok'
  obtain ⟨rfl, -⟩ := Prod.mk.inj (Except.ok.inj hok')
  have hb := congrArg (fun m : StringMap => m[ofString "b"]?) (hparams.symm.trans hparams')
  simp only [getElem?_lastValues] at hb
  revert hb
  decide

end CppServerStudio
