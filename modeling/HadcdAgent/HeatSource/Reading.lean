import HadcdAgent.Lib.Json

/-!
# Heat readings from a BMS file or URL

`HeatReading`, `parse_reading`, `FileHeatSource.read` and `HttpHeatSource.read`
(`agent/heat_source.py`). A backend's answer is taken by how the calls of the
standard library and of httpx end on it.
-/

namespace HadcdAgent.HeatSource

open Lib

/-! ### The source -/

structure HeatReading where
  measuredKw : PyFloat
  setpointC : Option PyFloat
  roomTempC : Option PyFloat
  expectedWindowSec : Option ℤ

def zero : HeatReading := ⟨.fin 0, none, none, none⟩

/-- `expected_window_sec` unless it is no positive `int`; `True` is 1. -/
def windowOf (value : Json) (defaultWindowSec : ℤ) : ℤ :=
  match value with
  | .int n => if 0 < n then n else defaultWindowSec
  | .bool true => 1
  | _ => defaultWindowSec

def parseReading (data : Json) (defaultWindowSec : ℤ) : Except PyExc (Option HeatReading) :=
  match data with
  | .obj kvs =>
    match (Json.get kvs "measured_kw").optionalFloat with
    | .error e => .error e
    | .ok none => .ok none
    | .ok (some measured) => do
      let setpoint ← (Json.get kvs "setpoint_c").optionalFloat
      let roomTemp ← (Json.get kvs "room_temp_c").optionalFloat
      pure (some ⟨measured, setpoint, roomTemp,
        some (windowOf (Json.get kvs "expected_window_sec") defaultWindowSec)⟩)
  | _ => .ok none

/-- The end of both `read`s: the flag of the log and the reading. -/
def accept (data : Json) (defaultWindowSec : ℤ) : Except PyExc (Bool × HeatReading) :=
  match parseReading data defaultWindowSec with
  | .error e => .error e
  | .ok none => .ok (true, zero)
  | .ok (some reading) => .ok (false, reading)

/-- The BMS file as `read` finds it; `unstattable` is an `OSError` of `exists`. -/
inductive BmsFile where
  | missing
  | unstattable
  | unreadable
  | text (l : Loads)

def BmsFile.loads : BmsFile → Except PyExc Json
  | .text l => l.result
  | .missing | .unstattable | .unreadable => .error .osError

structure FileHeatSource where
  defaultWindowSec : ℤ
  warnedMissing : Bool
  warnedBad : Bool

def FileHeatSource.read (s : FileHeatSource) (file : BmsFile) :
    FileHeatSource × Except PyExc HeatReading :=
  match file with
  | .missing => ({ s with warnedMissing := true }, .ok zero)
  | .unstattable => (s, .error .osError)
  | .unreadable | .text _ =>
    let s := { s with warnedMissing := false }
    match file.loads with
    | .error e =>
      if e = .osError || e = .jsonDecodeError then ({ s with warnedBad := true }, .ok zero)
      else (s, .error e)
    | .ok data =>
      match accept data s.defaultWindowSec with
      | .error e => (s, .error e)
      | .ok (warned, reading) => ({ s with warnedBad := warned }, .ok reading)

/-- What the adapters take of Python's numbers: `int` of a text (`none` is the
`ValueError`) and the two conversions to Celsius on floats. -/
structure Numbers where
  intOfStr : Str → Option ℤ
  ofTenthsFahrenheit : PyFloat → PyFloat
  ofFahrenheit : PyFloat → PyFloat

/-- `data.get(k)` of a value that may be no dictionary. -/
def getOf (data : Json) (k : Str) : Except PyExc Json :=
  match data with
  | .obj kvs => .ok (Json.get kvs k)
  | _ => .error .attributeError

@[simp] theorem getOf_obj (kvs : List (Str × Json)) (k : Str) :
    getOf (.obj kvs) k = .ok (Json.get kvs k) := rfl

theorem getOf_eq_ok {data v : Json} {k : Str} (h : getOf data k = .ok v) :
    ∃ kvs, data = .obj kvs ∧ v = Json.get kvs k := by
  cases data with
  | obj kvs => cases h; exact ⟨kvs, rfl, rfl⟩
  | _ => cases h

/-- How a request, `raise_for_status` and `resp.json()` end; `unsendable` is a
`ValueError` of a request that cannot be encoded. -/
inductive HttpAnswer where
  | failed
  | unsendable
  | body (l : Loads)

def HttpAnswer.result : HttpAnswer → Except PyExc Json
  | .failed => .error .httpError
  | .unsendable => .error .valueError
  | .body l => l.result

structure HttpHeatSource where
  defaultWindowSec : ℤ
  warned : Bool

def HttpHeatSource.read (s : HttpHeatSource) (answer : HttpAnswer) :
    HttpHeatSource × Except PyExc HeatReading :=
  match answer.result with
  | .error e =>
    if e = .httpError || e.isValueError then ({ s with warned := true }, .ok zero)
    else (s, .error e)
  | .ok data =>
    match accept data s.defaultWindowSec with
    | .error e => (s, .error e)
    | .ok (warned, reading) => ({ s with warned := warned }, .ok reading)

/-! ### The contract of `read` -/

/-- `read` returns, and with a zero demand when the answer is bad. -/
def Meets (bad : Prop) (result : Except PyExc HeatReading) : Prop :=
  ∃ reading, result = .ok reading ∧ (bad → reading.measuredKw = .fin 0)

theorem meets_zero (bad : Prop) : Meets bad (.ok zero) := ⟨zero, rfl, fun _ => rfl⟩

theorem not_meets_error (bad : Prop) (e : PyExc) : ¬ Meets bad (.error e) :=
  fun ⟨_, h, _⟩ => nomatch h

theorem meets_ok_iff {bad : Prop} {reading : HeatReading} :
    Meets bad (.ok reading) ↔ (bad → reading.measuredKw = .fin 0) :=
  ⟨fun ⟨_, h, hz⟩ => Except.ok.inj h ▸ hz, fun h => ⟨reading, rfl, h⟩⟩

def isJsonNumber : Json → Bool
  | .int _ | .float _ => true
  | _ => false

/-- The documented shape: an object with a number `measured_kw`. -/
def bmsShape : Json → Bool
  | .obj kvs => isJsonNumber (Json.get kvs "measured_kw")
  | _ => false

/-- Where `measured_kw` passes for a number it is not `true`, and neither it nor the
two temperatures are integers that `float` refuses. -/
def BmsFits (data : Json) : Prop :=
  ∀ kvs, data = .obj kvs → (Json.get kvs "measured_kw").isNumber = true →
    Json.get kvs "measured_kw" ≠ .bool true ∧
      ∀ k ∈ (["measured_kw", "setpoint_c", "room_temp_c"] : List Str),
        (Json.get kvs k).isHuge = false

def BmsFile.shape : BmsFile → Bool
  | .text (.value data) => bmsShape data
  | _ => false

/-- The file can be looked up, is UTF-8, not nested too deep and without an integer of
too many digits, and its value fits. -/
def BmsFile.Fits : BmsFile → Prop
  | .missing | .unreadable | .text .notJson => True
  | .unstattable | .text .notUtf8 | .text .tooManyDigits | .text .tooDeep => False
  | .text (.value data) => BmsFits data

def HttpAnswer.hasShape (shape : Json → Bool) : HttpAnswer → Bool
  | .body (.value data) => shape data
  | _ => false

def HttpAnswer.Fits (fits : Json → Prop) : HttpAnswer → Prop
  | .failed | .unsendable | .body .notUtf8 | .body .notJson | .body .tooManyDigits => True
  | .body .tooDeep => False
  | .body (.value data) => fits data

theorem optionalFloat_of_not_isNumber {x : Json} (h : x.isNumber = false) :
    x.optionalFloat = .ok none := by
  cases x <;> first | rfl | cases h

theorem optionalFloat_of_isNumber {x : Json} (h : x.isNumber = true) (hh : x.isHuge = false) :
    ∃ y, x.optionalFloat = .ok (some y) := by
  obtain ⟨y, hy⟩ := Json.optionalFloat_of_not_isHuge hh
  cases x with
  | bool b => exact ⟨_, rfl⟩
  | float z => exact ⟨_, rfl⟩
  | int n =>
    rw [Json.isHuge, Option.isNone_eq_false_iff, Option.isSome_iff_exists] at hh
    obtain ⟨z, hz⟩ := hh
    exact ⟨z, by rw [Json.optionalFloat, hz]⟩
  | _ => cases h

theorem accept_of_not_isNumber {kvs : List (Str × Json)}
    (h : (Json.get kvs "measured_kw").isNumber = false) (defaultWindowSec : ℤ) :
    accept (.obj kvs) defaultWindowSec = .ok (true, zero) := by
  rw [accept, parseReading, optionalFloat_of_not_isNumber h]

theorem accept_of_isHuge {kvs : List (Str × Json)}
    (hn : (Json.get kvs "measured_kw").isNumber = true) {k : Str}
    (hk : k ∈ (["measured_kw", "setpoint_c", "room_temp_c"] : List Str))
    (h : (Json.get kvs k).isHuge = true) (defaultWindowSec : ℤ) :
    ∃ e, accept (.obj kvs) defaultWindowSec = .error e := by
  rw [accept, parseReading]
  cases hm : (Json.get kvs "measured_kw").isHuge with
  | true => exact ⟨_, by rw [Json.optionalFloat_of_isHuge hm]⟩
  | false =>
    obtain ⟨x, hx⟩ := optionalFloat_of_isNumber hn hm
    rw [hx]
    cases hs : (Json.get kvs "setpoint_c").optionalFloat with
    | error e => exact ⟨e, rfl⟩
    | ok setpoint =>
      have hr : (Json.get kvs "room_temp_c").isHuge = true := by
        rcases List.mem_cons.mp hk with rfl | hk
        · rw [hm] at h
          cases h
        · rcases List.mem_cons.mp hk with rfl | hk
          · rw [Json.optionalFloat_of_isHuge h] at hs
            cases hs
          · rwa [← List.mem_singleton.mp hk]
      exact ⟨_, by rw [Json.optionalFloat_of_isHuge hr]; rfl⟩

theorem accept_of_fits {kvs : List (Str × Json)}
    (hn : (Json.get kvs "measured_kw").isNumber = true)
    (h : ∀ k ∈ (["measured_kw", "setpoint_c", "room_temp_c"] : List Str),
      (Json.get kvs k).isHuge = false) (defaultWindowSec : ℤ) :
    ∃ reading, accept (.obj kvs) defaultWindowSec = .ok (false, reading) ∧
      (Json.get kvs "measured_kw").optionalFloat = .ok (some reading.measuredKw) := by
  obtain ⟨x, hx⟩ := optionalFloat_of_isNumber hn (h _ (by simp))
  obtain ⟨y, hy⟩ := Json.optionalFloat_of_not_isHuge (h "setpoint_c" (by simp))
  obtain ⟨z, hz⟩ := Json.optionalFloat_of_not_isHuge (h "room_temp_c" (by simp))
  rw [accept, parseReading, hx, hy, hz]
  exact ⟨_, rfl, rfl⟩

theorem accept_meets_iff (data : Json) (defaultWindowSec : ℤ) :
    Meets (bmsShape data = false) ((accept data defaultWindowSec).map Prod.snd) ↔
      BmsFits data := by
  cases data with
  | obj kvs =>
    by_cases hn : (Json.get kvs "measured_kw").isNumber = true
    case neg =>
      have hn' := Bool.eq_false_iff.mpr hn
      rw [accept_of_not_isNumber hn']
      refine ⟨fun _ lvs he hl => ?_, fun _ => meets_zero _⟩
      cases he
      exact absurd hl hn
    by_cases hh : ∀ k ∈ (["measured_kw", "setpoint_c", "room_temp_c"] : List Str),
        (Json.get kvs k).isHuge = false
    case neg =>
      push Not at hh
      obtain ⟨k, hk, hk'⟩ := hh
      obtain ⟨e, he⟩ := accept_of_isHuge hn hk (by simpa using hk') defaultWindowSec
      rw [he]
      refine ⟨fun h => absurd h (not_meets_error _ e), fun h => ?_⟩
      exact absurd ((h kvs rfl hn).2 k hk) hk'
    obtain ⟨reading, hr, hm⟩ := accept_of_fits hn hh defaultWindowSec
    rw [hr]
    refine meets_ok_iff.trans ?_
    constructor
    · intro h lvs he _
      cases he
      refine ⟨fun ht => ?_, hh⟩
      have hz := h (by rw [bmsShape, ht]; rfl)
      rw [ht, hz] at hm
      exact absurd hm (by decide)
    · intro h hshape
      obtain ⟨hne, -⟩ := h kvs rfl hn
      rw [bmsShape] at hshape
      cases hk : Json.get kvs "measured_kw" with
      | bool b =>
        rw [hk] at hm hne
        cases b with
        | true => exact absurd rfl hne
        | false => exact (Option.some.inj (Except.ok.inj hm)).symm
      | int n => rw [hk] at hshape; cases hshape
      | float x => rw [hk] at hshape; cases hshape
      | _ => rw [hk] at hn; cases hn
  | _ => exact ⟨fun _ _ he => (nomatch he), fun _ => meets_zero _⟩

theorem file_meets_iff (s : FileHeatSource) (file : BmsFile) :
    Meets (file.shape = false) (s.read file).2 ↔ file.Fits := by
  have haccept := fun data => accept_meets_iff data s.defaultWindowSec
  cases file with
  | missing => exact ⟨fun _ => trivial, fun _ => meets_zero _⟩
  | unstattable => exact ⟨fun h => not_meets_error _ _ h, fun h => h.elim⟩
  | unreadable => exact ⟨fun _ => trivial, fun _ => meets_zero _⟩
  | text l =>
    cases l with
    | notJson => exact ⟨fun _ => trivial, fun _ => meets_zero _⟩
    | notUtf8 => exact ⟨fun h => not_meets_error _ _ h, fun h => h.elim⟩
    | tooManyDigits => exact ⟨fun h => not_meets_error _ _ h, fun h => h.elim⟩
    | tooDeep => exact ⟨fun h => not_meets_error _ _ h, fun h => h.elim⟩
    | value data =>
      refine Iff.trans (Eq.to_iff ?_) (haccept data)
      simp only [FileHeatSource.read, BmsFile.loads, Loads.result]
      cases accept data s.defaultWindowSec <;> rfl

theorem http_meets_iff (s : HttpHeatSource) (answer : HttpAnswer) :
    Meets (answer.hasShape bmsShape = false) (s.read answer).2 ↔ answer.Fits BmsFits := by
  cases answer with
  | failed => exact ⟨fun _ => trivial, fun _ => meets_zero _⟩
  | unsendable => exact ⟨fun _ => trivial, fun _ => meets_zero _⟩
  | body l =>
    cases l with
    | tooDeep => exact ⟨fun h => not_meets_error _ _ h, fun h => h.elim⟩
    | value data =>
      refine Iff.trans (Eq.to_iff ?_) (accept_meets_iff data s.defaultWindowSec)
      simp only [HttpHeatSource.read, HttpAnswer.result, Loads.result]
      cases accept data s.defaultWindowSec <;> rfl
    | _ => exact ⟨fun _ => trivial, fun _ => meets_zero _⟩

end HadcdAgent.HeatSource
