import HadcdAgent.HeatSource.Reading

/-!
# The Home Assistant heat source

`HomeAssistantHeatSource.read` and `_to_celsius` (`agent/heat_source.py`).
-/

namespace HadcdAgent.HeatSource

open Lib Lib.PyStr

/-! ### The source -/

/-- `fahrenheit` tells whether `_temperature_unit` is `"F"`. -/
structure HomeAssistantHeatSource where
  demandWhenHeatingKw : PyFloat
  defaultWindowSec : ℤ
  fahrenheit : Bool
  warned : Bool

def toCelsius (py : Numbers) (fahrenheit : Bool) (value : Json) :
    Except PyExc (Option PyFloat) :=
  value.optionalFloat.map fun x => if fahrenheit then x.map py.ofFahrenheit else x

/-- `str(value).lower() in names`, for names that only a text can have. -/
def lowerIn (names : List Str) : Json → Bool
  | .str s => lower s ∈ names
  | _ => false

def haIsHeating (data attrs : List (Str × Json)) : Bool :=
  match Json.get attrs "hvac_action" with
  | .null => lowerIn ["heat", "heating"] (Json.get data "state")
  | hvacAction => lowerIn ["heating"] hvacAction

def entityReading (py : Numbers) (s : HomeAssistantHeatSource) (data : List (Str × Json)) :
    Except PyExc HeatReading :=
  match (Json.get data "attributes").or (.obj []) with
  | .obj attrs => do
    let roomTemp ← toCelsius py s.fahrenheit (Json.get attrs "current_temperature")
    let setpoint ← toCelsius py s.fahrenheit (Json.get attrs "temperature")
    pure ⟨if haIsHeating data attrs then s.demandWhenHeatingKw else .fin 0, setpoint, roomTemp,
      if haIsHeating data attrs then some s.defaultWindowSec else none⟩
  | _ => .error .attributeError

def HomeAssistantHeatSource.read (py : Numbers) (s : HomeAssistantHeatSource)
    (answer : HttpAnswer) : HomeAssistantHeatSource × Except PyExc HeatReading :=
  match answer.result with
  | .error e =>
    if e = .httpError || e.isValueError then ({ s with warned := true }, .ok zero)
    else (s, .error e)
  | .ok (.obj data) => ({ s with warned := false }, entityReading py s data)
  | .ok _ => ({ s with warned := true }, .ok zero)

/-! ### The contract of `read` -/

def entityShape : Json → Bool
  | .obj data =>
    match Json.get data "attributes" with
    | .null | .obj _ => true
    | _ => false
  | _ => false

/-- The attributes are an object or false, no temperature is an integer that `float`
refuses, and an entity that heats has the documented shape. -/
def EntityFits (s : HomeAssistantHeatSource) (data : Json) : Prop :=
  ∀ kvs, data = .obj kvs → ∃ attrs, (Json.get kvs "attributes").or (.obj []) = .obj attrs ∧
    (∀ k ∈ (["current_temperature", "temperature"] : List Str),
      (Json.get attrs k).isHuge = false) ∧
    (haIsHeating kvs attrs = true → s.demandWhenHeatingKw ≠ .fin 0 →
      entityShape (.obj kvs) = true)

theorem toCelsius_of_isHuge (py : Numbers) (fahrenheit : Bool) {x : Json}
    (h : x.isHuge = true) : toCelsius py fahrenheit x = .error .overflowError :=
  Json.map_optionalFloat_of_isHuge _ h

theorem toCelsius_of_not_isHuge (py : Numbers) (fahrenheit : Bool) {x : Json}
    (h : x.isHuge = false) : ∃ y, toCelsius py fahrenheit x = .ok y :=
  Json.map_optionalFloat_of_not_isHuge _ h

theorem entityReading_eq_ok (py : Numbers) (s : HomeAssistantHeatSource)
    {data attrs : List (Str × Json)}
    (ha : (Json.get data "attributes").or (.obj []) = .obj attrs)
    (hh : ∀ k ∈ (["current_temperature", "temperature"] : List Str),
      (Json.get attrs k).isHuge = false) :
    ∃ reading, entityReading py s data = .ok reading ∧
      reading.measuredKw = if haIsHeating data attrs then s.demandWhenHeatingKw else .fin 0 := by
  obtain ⟨x, hx⟩ := toCelsius_of_not_isHuge py s.fahrenheit (hh "current_temperature" (by simp))
  obtain ⟨y, hy⟩ := toCelsius_of_not_isHuge py s.fahrenheit (hh "temperature" (by simp))
  refine ⟨⟨if haIsHeating data attrs then s.demandWhenHeatingKw else .fin 0, y, x,
    if haIsHeating data attrs then some s.defaultWindowSec else none⟩, ?_, rfl⟩
  rw [entityReading, ha]
  simp only [hx, hy, ok_bind]
  rfl

theorem of_entityReading_eq_ok {py : Numbers} {s : HomeAssistantHeatSource}
    {data : List (Str × Json)} {reading : HeatReading}
    (h : entityReading py s data = .ok reading) :
    ∃ attrs, (Json.get data "attributes").or (.obj []) = .obj attrs ∧
      ∀ k ∈ (["current_temperature", "temperature"] : List Str),
        (Json.get attrs k).isHuge = false := by
  rw [entityReading] at h
  cases ha : (Json.get data "attributes").or (.obj []) with
  | obj attrs =>
    rw [ha] at h
    obtain ⟨roomTemp, hroom, h⟩ := bind_eq_ok h
    obtain ⟨setpoint, hset, -⟩ := bind_eq_ok h
    refine ⟨attrs, rfl, fun k hk => Bool.eq_false_iff.mpr fun hk' => ?_⟩
    rcases List.mem_cons.mp hk with rfl | hk
    · rw [toCelsius_of_isHuge py _ hk'] at hroom
      cases hroom
    · rw [List.mem_singleton.mp hk] at hk'
      rw [toCelsius_of_isHuge py _ hk'] at hset
      cases hset
  | _ => rw [ha] at h; cases h

theorem entity_meets_iff (py : Numbers) (s : HomeAssistantHeatSource)
    (data : List (Str × Json)) :
    Meets (entityShape (.obj data) = false) (entityReading py s data) ↔
      EntityFits s (.obj data) := by
  constructor
  · rintro ⟨reading, hreading, hz⟩ kvs hk
    cases hk
    obtain ⟨attrs, ha, hh⟩ := of_entityReading_eq_ok hreading
    obtain ⟨reading', hreading', hm⟩ := entityReading_eq_ok py s ha hh
    cases hreading.symm.trans hreading'
    refine ⟨attrs, ha, hh, fun hheat hd => ?_⟩
    rw [if_pos hheat] at hm
    by_contra hshape
    exact hd (hm.symm.trans (hz (Bool.eq_false_iff.mpr hshape)))
  · intro h
    obtain ⟨attrs, ha, hh, hheat⟩ := h data rfl
    obtain ⟨reading, hreading, hm⟩ := entityReading_eq_ok py s ha hh
    refine ⟨reading, hreading, fun hbad => ?_⟩
    by_cases hi : haIsHeating data attrs = true
    · rw [if_pos hi] at hm
      by_contra hd
      rw [hheat hi fun h => hd (hm.trans h)] at hbad
      cases hbad
    · rw [hm, if_neg hi]

theorem homeAssistant_meets_iff (py : Numbers) (s : HomeAssistantHeatSource)
    (answer : HttpAnswer) :
    Meets (answer.hasShape entityShape = false) (s.read py answer).2 ↔
      answer.Fits (EntityFits s) := by
  cases answer with
  | failed => exact iff_of_true (meets_zero _) trivial
  | unsendable => exact iff_of_true (meets_zero _) trivial
  | body l =>
    cases l with
    | tooDeep => exact iff_of_false (not_meets_error _ _) id
    | value data =>
      cases data with
      | obj kvs => exact entity_meets_iff py s kvs
      | _ => exact iff_of_true (meets_zero _) fun _ h => (nomatch h)
    | _ => exact iff_of_true (meets_zero _) trivial

end HadcdAgent.HeatSource
