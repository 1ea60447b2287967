import HadcdAgent.HeatSource.Reading

/-!
# The Ecobee heat source

`EcobeeHeatSource.read`, `_ensure_access_token` and `_persist_refresh_token`
(`agent/heat_source.py`). Instants are exact: the rounding of sums of floats is not
modelled.
-/

namespace HadcdAgent.HeatSource

open Lib Lib.PyStr

/-! ### The source -/

def ecobeeHeatingStates : List Str :=
  ["heatPump", "heatPump2", "heatPump3", "auxHeat1", "auxHeat2", "auxHeat3"]

def ecobeeTenthsFToC (py : Numbers) (value : Json) : Except PyExc (Option PyFloat) :=
  value.optionalFloat.map fun x => x.map py.ofTenthsFahrenheit

/-- The tokens may be any values that the server sends; `stateFile` is what the state
file holds. -/
structure EcobeeHeatSource where
  thermostatId : Str
  demandWhenHeatingKw : PyFloat
  defaultWindowSec : ℤ
  accessToken : Json
  accessExpiresAt : ℚ
  refreshToken : Json
  stateFile : Json
  warned : Bool

/-- One read: the clock, the answers to the two requests and how the writing of a
rotated token ends. -/
structure EcobeeInput where
  now : ℚ
  token : HttpAnswer
  persist : Except PyExc Unit
  thermostat : HttpAnswer

def asksForToken (s : EcobeeHeatSource) (now : ℚ) : Bool :=
  !(s.accessToken.truthy && now < s.accessExpiresAt - 60)

def toInt (py : Numbers) : Json → Except PyExc ℤ
  | .int n => .ok n
  | .bool b => .ok (if b then 1 else 0)
  | .float (.fin q) => .ok (q.num.tdiv q.den)
  | .float .nan => .error .valueError
  | .float .inf | .float .negInf => .error .overflowError
  | .str s =>
    match py.intOfStr s with
    | some n => .ok n
    | none => .error .valueError
  | .null | .arr _ | .obj _ => .error .typeError

/-- `now + int(data.get("expires_in", 3600))`. -/
def expiresAt (py : Numbers) (now : ℚ) (data : List (Str × Json)) : Except PyExc ℚ :=
  match toInt py ((lookup ("expires_in" : Str) data).getD (.int 3600)) with
  | .error e => .error e
  | .ok n => if (Json.int n).isHuge then .error .overflowError else .ok (now + n)

def isRotated (s : EcobeeHeatSource) (data : List (Str × Json)) : Bool :=
  (Json.get data "refresh_token").truthy && !(Json.get data "refresh_token").eq s.refreshToken

def persistRefreshToken (s : EcobeeHeatSource) (newToken : Json) (persist : Except PyExc Unit) :
    EcobeeHeatSource × Except PyExc Unit :=
  match persist with
  | .error e => (s, .error e)
  | .ok () =>
    let payload := .obj [("refresh_token", newToken), ("thermostat_id", .str s.thermostatId)]
    ({ s with stateFile := payload }, .ok ())

/-- `_ensure_access_token` once the answer is parsed; `data["access_token"]` tells
objects from other values. -/
def takeTokens (py : Numbers) (s : EcobeeHeatSource) (now : ℚ) (data : Json)
    (persist : Except PyExc Unit) : EcobeeHeatSource × Except PyExc Unit :=
  match data with
  | .obj kvs =>
    match lookup ("access_token" : Str) kvs with
    | none => (s, .error .keyError)
    | some accessToken =>
      let s := { s with accessToken := accessToken }
      match expiresAt py now kvs with
      | .error e => (s, .error e)
      | .ok t =>
        let s := { s with accessExpiresAt := t }
        if isRotated s kvs then
          let newToken := Json.get kvs "refresh_token"
          persistRefreshToken { s with refreshToken := newToken } newToken persist
        else (s, .ok ())
  | _ => (s, .error .typeError)

def ensureAccessToken (py : Numbers) (s : EcobeeHeatSource) (i : EcobeeInput) :
    EcobeeHeatSource × Except PyExc Unit :=
  if asksForToken s i.now then
    match i.token.result with
    | .error e => (s, .error e)
    | .ok data => takeTokens py s i.now data i.persist
  else (s, .ok ())

def firstOf : Json → Except PyExc Json
  | .arr (x :: _) => .ok x
  | .arr [] | .str [] => .error .indexError
  | .str (c :: _) => .ok (.str [c])
  | .obj _ => .error .keyError
  | .null | .bool _ | .int _ | .float _ => .error .typeError

/-- `equipment_raw.split(",")` and the comparison with the heating states. -/
def isHeating (equipmentRaw : Str) : Bool :=
  (equipmentRaw.splitOn ',').any fun piece => strip piece ∈ ecobeeHeatingStates

def splitOf : Json → Except PyExc Str
  | .str s => .ok s
  | _ => .error .attributeError

/-- The reading from the first thermostat. -/
def thermostatReading (py : Numbers) (s : EcobeeHeatSource) (thermostat : Json) :
    Except PyExc HeatReading := do
  let status ← getOf thermostat "equipmentStatus"
  let equipmentRaw ← splitOf (status.or (.str []))
  let runtime ← getOf thermostat "runtime"
  let actual ← getOf (runtime.or (.obj [])) "actualTemperature"
  let roomTemp ← ecobeeTenthsFToC py actual
  let desired ← getOf (runtime.or (.obj [])) "desiredHeat"
  let setpoint ← ecobeeTenthsFToC py desired
  pure ⟨if isHeating equipmentRaw then s.demandWhenHeatingKw else .fin 0, setpoint, roomTemp,
    if isHeating equipmentRaw then some s.defaultWindowSec else none⟩

/-- The rest of `read` after the guarded part. -/
def readThermostats (py : Numbers) (s : EcobeeHeatSource) (data : Json) :
    EcobeeHeatSource × Except PyExc HeatReading :=
  match getOf data "thermostatList" with
  | .error e => (s, .error e)
  | .ok thermostats =>
    if thermostats.truthy then
      ({ s with warned := false }, firstOf thermostats >>= thermostatReading py s)
    else ({ s with warned := true }, .ok zero)

/-- `except (httpx.HTTPError, KeyError, ValueError)`. -/
def ecobeeHandles (e : PyExc) : Bool := e = .httpError || e = .keyError || e.isValueError

def ecobeeFailed (s : EcobeeHeatSource) (e : PyExc) :
    EcobeeHeatSource × Except PyExc HeatReading :=
  if ecobeeHandles e then ({ s with warned := true }, .ok zero) else (s, .error e)

def EcobeeHeatSource.read (py : Numbers) (s : EcobeeHeatSource) (i : EcobeeInput) :
    EcobeeHeatSource × Except PyExc HeatReading :=
  match ensureAccessToken py s i with
  | (s, .error e) => ecobeeFailed s e
  | (s, .ok ()) =>
    match i.thermostat.result with
    | .error e => ecobeeFailed s e
    | .ok data => readThermostats py s data

/-! ### The contract of `read` -/

/-- The documented part of a token answer: an object with a string `access_token`. -/
def tokenShape : Json → Bool
  | .obj kvs =>
    match Json.get kvs "access_token" with
    | .str _ => true
    | _ => false
  | _ => false

def isOptionalObj : Json → Bool
  | .null | .obj _ => true
  | _ => false

def entryShape : Json → Bool
  | .obj kvs =>
    match Json.get kvs "equipmentStatus" with
    | .str _ => isOptionalObj (Json.get kvs "runtime")
    | _ => false
  | _ => false

def thermostatShape : Json → Bool
  | .obj kvs =>
    match Json.get kvs "thermostatList" with
    | .arr (x :: _) => entryShape x
    | _ => false
  | _ => false

/-- An answer that the read has used is an error or not of the documented shape. -/
def EcobeeInput.Bad (s : EcobeeHeatSource) (i : EcobeeInput) : Prop :=
  asksForToken s i.now = true ∧ i.token.hasShape tokenShape = false ∨
    i.thermostat.hasShape thermostatShape = false

/-- The token answer has an access token, a usable expiry, and a rotated refresh
token is written. -/
def TokensUsable (py : Numbers) (s : EcobeeHeatSource) (now : ℚ) (persist : Except PyExc Unit)
    (kvs : List (Str × Json)) : Prop :=
  lookup ("access_token" : Str) kvs ≠ none ∧ (∃ t, expiresAt py now kvs = .ok t) ∧
    (isRotated s kvs = true → persist = .ok ())

/-- What makes the token answer unusable is something that `read` handles. -/
def TokensFit (py : Numbers) (s : EcobeeHeatSource) (now : ℚ) (persist : Except PyExc Unit)
    (kvs : List (Str × Json)) : Prop :=
  lookup ("access_token" : Str) kvs ≠ none →
    (∀ e, expiresAt py now kvs = .error e → ecobeeHandles e = true) ∧
    (∀ t e, expiresAt py now kvs = .ok t → isRotated s kvs = true → persist = .error e →
      ecobeeHandles e = true)

def TokenGranted (py : Numbers) (s : EcobeeHeatSource) (i : EcobeeInput) : Prop :=
  asksForToken s i.now = true → ∃ kvs, i.token = .body (.value (.obj kvs)) ∧
    TokensUsable py s i.now i.persist kvs

def TokenFits (py : Numbers) (s : EcobeeHeatSource) (i : EcobeeInput) : Prop :=
  asksForToken s i.now = true → i.token.Fits fun data => ∃ kvs, data = .obj kvs ∧
    TokensFit py s i.now i.persist kvs

/-- The first thermostat: `equipmentStatus` is a text or false, `runtime` an object or
false, no temperature is an integer that `float` refuses; and a thermostat that heats
comes with documented answers. -/
def EntryFits (s : EcobeeHeatSource) (documented : Prop) (thermostat : Json) : Prop :=
  ∃ kvs equipment runtime, thermostat = .obj kvs ∧
    (Json.get kvs "equipmentStatus").or (.str []) = .str equipment ∧
    (Json.get kvs "runtime").or (.obj []) = .obj runtime ∧
    (∀ k ∈ (["actualTemperature", "desiredHeat"] : List Str),
      (Json.get runtime k).isHuge = false) ∧
    (isHeating equipment = true → s.demandWhenHeatingKw ≠ .fin 0 →
      documented ∧ isOptionalObj (Json.get kvs "runtime") = true)

/-- The thermostat answer: an object whose `thermostatList` is false or a list with a
fitting thermostat at its head. -/
def ThermostatFits (s : EcobeeHeatSource) (documented : Prop) (data : Json) : Prop :=
  ∃ kvs, data = .obj kvs ∧ ((Json.get kvs "thermostatList").truthy = true →
    ∃ x xs, Json.get kvs "thermostatList" = .arr (x :: xs) ∧ EntryFits s documented x)

def EcobeeInput.Fits (py : Numbers) (s : EcobeeHeatSource) (i : EcobeeInput) : Prop :=
  TokenFits py s i ∧ (TokenGranted py s i → i.thermostat.Fits
    (ThermostatFits s (asksForToken s i.now = true → i.token.hasShape tokenShape = true)))

/-! ### The token step -/

theorem takeTokens_cases (py : Numbers) (s : EcobeeHeatSource) (now : ℚ)
    (persist : Except PyExc Unit) (kvs : List (Str × Json)) :
    (TokensUsable py s now persist kvs ∧ TokensFit py s now persist kvs ∧
      ∃ s', takeTokens py s now (.obj kvs) persist = (s', .ok ()) ∧
        s'.demandWhenHeatingKw = s.demandWhenHeatingKw) ∨
    (¬ TokensUsable py s now persist kvs ∧
      ∃ s' e, takeTokens py s now (.obj kvs) persist = (s', .error e) ∧
        (TokensFit py s now persist kvs ↔ ecobeeHandles e = true)) := by
  cases ha : lookup ("access_token" : Str) kvs with
  | none =>
    refine Or.inr ⟨fun h => h.1 ha, s, .keyError, ?_, fun _ => rfl, fun _ h => absurd ha h⟩
    simp only [takeTokens, ha]
  | some accessToken =>
    have hne : lookup ("access_token" : Str) kvs ≠ none := by
      rw [ha]
      exact Option.some_ne_none _
    cases ht : expiresAt py now kvs with
    | error e =>
      have htake : takeTokens py s now (.obj kvs) persist =
          ({ s with accessToken := accessToken }, .error e) := by simp only [takeTokens, ha, ht]
      refine Or.inr ⟨fun h => ?_, _, e, htake, fun h => ?_, ?_⟩
      · obtain ⟨t, h⟩ := h.2.1
        rw [ht] at h
        cases h
      · exact (h hne).1 e ht
      · refine fun h _ => ⟨fun e' he => ?_, fun t e' he => ?_⟩
        · rw [ht] at he
          cases he
          exact h
        · rw [ht] at he
          cases he
    | ok t =>
      have hnot : ∀ e, expiresAt py now kvs = .error e → ecobeeHandles e = true := by
        intro e h
        rw [ht] at h
        cases h
      have htake : takeTokens py s now (.obj kvs) persist =
          if isRotated s kvs then
            persistRefreshToken { s with
              accessToken := accessToken
              accessExpiresAt := t
              refreshToken := Json.get kvs "refresh_token" } (Json.get kvs "refresh_token") persist
          else ({ s with accessToken := accessToken, accessExpiresAt := t }, .ok ()) := by
        simp only [takeTokens, ha, ht]
        rfl
      rw [htake]
      cases hr : isRotated s kvs with
      | false =>
        refine Or.inl ⟨⟨hne, ⟨t, ht⟩, fun h => ?_⟩, fun _ => ⟨hnot, fun _ _ _ h => ?_⟩, ?_⟩
        · rw [hr] at h
          cases h
        · rw [hr] at h
          cases h
        · exact ⟨_, rfl, rfl⟩
      | true =>
        cases persist with
        | ok u =>
          refine Or.inl ⟨⟨hne, ⟨t, ht⟩, fun _ => rfl⟩, fun _ => ⟨hnot, fun _ _ _ _ h => ?_⟩, ?_⟩
          · cases h
          · exact ⟨_, rfl, rfl⟩
        | error e =>
          refine Or.inr ⟨fun h => ?_, _, e, rfl, fun h => ?_, ?_⟩
          · cases h.2.2 hr
          · exact (h hne).2 t e ht hr rfl
          · refine fun h _ => ⟨hnot, fun _ e' _ _ he => ?_⟩
            cases he
            exact h

/-- The token step: granted, with the settings as before, or stopped by an exception
that is handled exactly when the answer fits. -/
theorem ensureAccessToken_cases (py : Numbers) (s : EcobeeHeatSource) (i : EcobeeInput) :
    (TokenGranted py s i ∧ TokenFits py s i ∧ ∃ s', ensureAccessToken py s i = (s', .ok ()) ∧
      s'.demandWhenHeatingKw = s.demandWhenHeatingKw) ∨
    (¬ TokenGranted py s i ∧ ∃ s' e, ensureAccessToken py s i = (s', .error e) ∧
      (TokenFits py s i ↔ ecobeeHandles e = true)) := by
  cases ha : asksForToken s i.now with
  | false =>
    refine Or.inl ⟨fun h => ?_, fun h => ?_, s, ?_, rfl⟩
    · rw [ha] at h
      cases h
    · rw [ha] at h
      cases h
    · simp only [ensureAccessToken, ha, Bool.false_eq_true, if_false]
  | true =>
    obtain ⟨now, token, persist, thermostat⟩ := i
    have hens : ensureAccessToken py s ⟨now, token, persist, thermostat⟩ =
        match token.result with
        | .error e => (s, .error e)
        | .ok data => takeTokens py s now data persist := by
      simp only [ensureAccessToken, show asksForToken s now = true from ha, if_true]
    rw [hens]
    -- an answer that is no object stops the step
    have hstop : ∀ e, (∀ kvs, token ≠ .body (.value (.obj kvs))) →
        (token.Fits (fun data => ∃ kvs, data = .obj kvs ∧ TokensFit py s now persist kvs) ↔
          ecobeeHandles e = true) →
        ¬ TokenGranted py s ⟨now, token, persist, thermostat⟩ ∧ ∃ s' e',
          (s, (Except.error e : Except PyExc Unit)) = (s', .error e') ∧
          (TokenFits py s ⟨now, token, persist, thermostat⟩ ↔ ecobeeHandles e' = true) := by
      intro e hno hfit
      refine ⟨fun h => ?_, s, e, rfl, (imp_iff_right ha).trans hfit⟩
      obtain ⟨kvs, hk, -⟩ := h ha
      exact hno kvs hk
    cases token with
    | failed => exact Or.inr (hstop _ (fun _ h => (nomatch h)) (iff_of_true trivial rfl))
    | unsendable => exact Or.inr (hstop _ (fun _ h => (nomatch h)) (iff_of_true trivial rfl))
    | body l =>
      cases l with
      | notUtf8 => exact Or.inr (hstop _ (fun _ h => (nomatch h)) (iff_of_true trivial rfl))
      | notJson => exact Or.inr (hstop _ (fun _ h => (nomatch h)) (iff_of_true trivial rfl))
      | tooManyDigits =>
        exact Or.inr (hstop _ (fun _ h => (nomatch h)) (iff_of_true trivial rfl))
      | tooDeep =>
        exact Or.inr (hstop _ (fun _ h => (nomatch h)) (iff_of_false id (by decide)))
      | value data =>
        cases data with
        | obj kvs =>
          rcases takeTokens_cases py s now persist kvs with ⟨hu, hf, hs⟩ | ⟨hu, s', e, hs, hf⟩
          · exact Or.inl ⟨fun _ => ⟨kvs, rfl, hu⟩, fun _ => ⟨kvs, rfl, hf⟩, hs⟩
          · refine Or.inr ⟨fun h => ?_, s', e, hs, Iff.trans ⟨fun h => ?_, fun h _ => ?_⟩ hf⟩
            · obtain ⟨lvs, hk, hu'⟩ := h ha
              cases hk
              exact hu hu'
            · obtain ⟨lvs, hk, hf'⟩ := h ha
              cases hk
              exact hf'
            · exact ⟨kvs, rfl, h⟩
        | _ =>
          exact Or.inr (hstop _ (fun _ h => (nomatch h))
            (iff_of_false (fun ⟨_, h, _⟩ => nomatch h) (by decide)))

/-! ### The thermostat's part -/

theorem tenths_of_isHuge (py : Numbers) {x : Json} (h : x.isHuge = true) :
    ecobeeTenthsFToC py x = .error .overflowError :=
  Json.map_optionalFloat_of_isHuge _ h

theorem tenths_of_not_isHuge (py : Numbers) {x : Json} (h : x.isHuge = false) :
    ∃ y, ecobeeTenthsFToC py x = .ok y :=
  Json.map_optionalFloat_of_not_isHuge _ h

theorem eq_str_of_isHeating {status : Json} {equipment : Str}
    (h : status.or (.str []) = .str equipment) (hheat : isHeating equipment = true) :
    status = .str equipment := by
  cases ht : status.truthy with
  | true => rwa [Json.or_of_truthy ht] at h
  | false =>
    rw [Json.or_of_not_truthy ht] at h
    cases h
    exact absurd hheat (by decide)

theorem splitOf_eq_ok {value : Json} {equipment : Str} (h : splitOf value = .ok equipment) :
    value = .str equipment := by
  cases value with
  | str t => cases h; rfl
  | _ => cases h

theorem thermostatReading_eq_ok (py : Numbers) (s : EcobeeHeatSource)
    {kvs runtime : List (Str × Json)} {equipment : Str}
    (he : (Json.get kvs "equipmentStatus").or (.str []) = .str equipment)
    (hr : (Json.get kvs "runtime").or (.obj []) = .obj runtime)
    (hh : ∀ k ∈ (["actualTemperature", "desiredHeat"] : List Str),
      (Json.get runtime k).isHuge = false) :
    ∃ reading, thermostatReading py s (.obj kvs) = .ok reading ∧
      reading.measuredKw = if isHeating equipment then s.demandWhenHeatingKw else .fin 0 := by
  obtain ⟨x, hx⟩ := tenths_of_not_isHuge py (hh "actualTemperature" (by simp))
  obtain ⟨y, hy⟩ := tenths_of_not_isHuge py (hh "desiredHeat" (by simp))
  refine ⟨⟨if isHeating equipment then s.demandWhenHeatingKw else .fin 0, y, x,
    if isHeating equipment then some s.defaultWindowSec else none⟩, ?_, rfl⟩
  rw [thermostatReading, getOf_obj, ok_bind, he, splitOf, ok_bind, getOf_obj, ok_bind, hr,
    getOf_obj, ok_bind, hx, ok_bind, getOf_obj, ok_bind, hy, ok_bind]
  rfl

theorem of_thermostatReading_eq_ok {py : Numbers} {s : EcobeeHeatSource} {thermostat : Json}
    {reading : HeatReading} (h : thermostatReading py s thermostat = .ok reading) :
    ∃ kvs equipment runtime, thermostat = .obj kvs ∧
      (Json.get kvs "equipmentStatus").or (.str []) = .str equipment ∧
      (Json.get kvs "runtime").or (.obj []) = .obj runtime ∧
      ∀ k ∈ (["actualTemperature", "desiredHeat"] : List Str),
        (Json.get runtime k).isHuge = false := by
  obtain ⟨status, hstatus, h⟩ := bind_eq_ok h
  obtain ⟨kvs, rfl, rfl⟩ := getOf_eq_ok hstatus
  obtain ⟨equipment, he, h⟩ := bind_eq_ok h
  obtain ⟨raw, hraw, h⟩ := bind_eq_ok h
  cases hraw
  obtain ⟨actual, hactual, h⟩ := bind_eq_ok h
  obtain ⟨runtime, hr, rfl⟩ := getOf_eq_ok hactual
  obtain ⟨roomTemp, hroom, h⟩ := bind_eq_ok h
  rw [hr, getOf_obj, ok_bind] at h
  obtain ⟨setpoint, hset, -⟩ := bind_eq_ok h
  refine ⟨kvs, equipment, runtime, rfl, splitOf_eq_ok he, hr, fun k hk => ?_⟩
  refine Bool.eq_false_iff.mpr fun hk' => ?_
  rcases List.mem_cons.mp hk with rfl | hk
  · rw [tenths_of_isHuge py hk'] at hroom
    cases hroom
  · rw [List.mem_singleton.mp hk] at hk'
    rw [tenths_of_isHuge py hk'] at hset
    cases hset

theorem reading_meets_iff (py : Numbers) (s : EcobeeHeatSource) (documented : Prop)
    (thermostat : Json) :
    Meets (¬ documented ∨ entryShape thermostat = false) (thermostatReading py s thermostat) ↔
      EntryFits s documented thermostat := by
  constructor
  · rintro ⟨reading, hreading, hz⟩
    obtain ⟨kvs, equipment, runtime, rfl, he, hr, hh⟩ := of_thermostatReading_eq_ok hreading
    obtain ⟨reading', hreading', hm⟩ := thermostatReading_eq_ok py s he hr hh
    cases hreading.symm.trans hreading'
    refine ⟨kvs, equipment, runtime, rfl, he, hr, hh, fun hheat hd => ?_⟩
    rw [if_pos hheat] at hm
    by_contra hdoc
    refine hd (hm.symm.trans (hz ?_))
    rw [entryShape, eq_str_of_isHeating he hheat]
    by_cases h : documented
    · exact Or.inr (Bool.eq_false_iff.mpr fun ho => hdoc ⟨h, ho⟩)
    · exact Or.inl h
  · rintro ⟨kvs, equipment, runtime, rfl, he, hr, hh, hheat⟩
    obtain ⟨reading, hreading, hm⟩ := thermostatReading_eq_ok py s he hr hh
    refine ⟨reading, hreading, fun hbad => ?_⟩
    by_cases hi : isHeating equipment = true
    · rw [if_pos hi] at hm
      by_contra hd
      obtain ⟨hdoc, ho⟩ := hheat hi fun h => hd (hm.trans h)
      rcases hbad with hbad | hbad
      · exact hbad hdoc
      · rw [entryShape, eq_str_of_isHeating he hi] at hbad
        rw [show isOptionalObj (Json.get kvs "runtime") = false from hbad] at ho
        cases ho
    · rw [hm, if_neg hi]

theorem firstReading_of_not_arr (py : Numbers) (s : EcobeeHeatSource) {thermostats : Json}
    (h : ∀ x xs, thermostats ≠ .arr (x :: xs)) :
    ∃ e, (firstOf thermostats >>= thermostatReading py s) = .error e := by
  cases thermostats with
  | arr xs =>
    cases xs with
    | nil => exact ⟨_, rfl⟩
    | cons x xs => exact absurd rfl (h x xs)
  | str t => cases t <;> exact ⟨_, rfl⟩
  | _ => exact ⟨_, rfl⟩

theorem thermostats_meets_iff (py : Numbers) (s : EcobeeHeatSource) (documented : Prop)
    (data : Json) :
    Meets (¬ documented ∨ thermostatShape data = false) (readThermostats py s data).2 ↔
      ThermostatFits s documented data := by
  cases data with
  | obj kvs =>
    have hfits : ThermostatFits s documented (.obj kvs) ↔
        ((Json.get kvs "thermostatList").truthy = true → ∃ x xs,
          Json.get kvs "thermostatList" = .arr (x :: xs) ∧ EntryFits s documented x) :=
      ⟨fun ⟨_, he, h⟩ => Json.obj.inj he ▸ h, fun h => ⟨kvs, rfl, h⟩⟩
    rw [hfits, readThermostats, getOf_obj]
    cases ht : (Json.get kvs "thermostatList").truthy with
    | false =>
      simp only [ht, Bool.false_eq_true, if_false]
      exact ⟨fun _ h => (nomatch h), fun _ => meets_zero _⟩
    | true =>
      simp only [ht, if_true, forall_const]
      by_cases harr : ∃ x xs, Json.get kvs "thermostatList" = .arr (x :: xs)
      · obtain ⟨x, xs, hx⟩ := harr
        rw [thermostatShape, hx]
        refine (reading_meets_iff py s documented x).trans ⟨fun h => ⟨x, xs, rfl, h⟩, ?_⟩
        rintro ⟨y, ys, hy, h⟩
        cases hy
        exact h
      · push Not at harr
        obtain ⟨e, he⟩ := firstReading_of_not_arr py s harr
        rw [he]
        exact ⟨fun h => absurd h (not_meets_error _ e),
          fun ⟨x, xs, hx, _⟩ => absurd hx (harr x xs)⟩
  | _ => exact ⟨fun h => absurd h (not_meets_error _ _), fun ⟨_, h, _⟩ => nomatch h⟩

theorem thermostatFits_congr {s s' : EcobeeHeatSource} (documented : Prop) (data : Json)
    (h : s'.demandWhenHeatingKw = s.demandWhenHeatingKw) :
    ThermostatFits s' documented data ↔ ThermostatFits s documented data := by
  simp only [ThermostatFits, EntryFits, h]

theorem ecobeeFailed_meets_iff (s : EcobeeHeatSource) (e : PyExc) (bad : Prop) :
    Meets bad (ecobeeFailed s e).2 ↔ ecobeeHandles e = true := by
  rw [ecobeeFailed]
  split_ifs with h
  · exact iff_of_true (meets_zero _) h
  · exact iff_of_false (not_meets_error _ e) h

theorem ecobee_meets_iff (py : Numbers) (s : EcobeeHeatSource) (i : EcobeeInput) :
    Meets (i.Bad s) (s.read py i).2 ↔ i.Fits py s := by
  rcases ensureAccessToken_cases py s i with ⟨hg, hf, s', hs, hd⟩ | ⟨hg, s', e, hs, hf⟩
  · have hread : s.read py i = match i.thermostat.result with
        | .error e => ecobeeFailed s' e
        | .ok data => readThermostats py s' data := by rw [EcobeeHeatSource.read, hs]
    have hbad : i.Bad s ↔
        (¬ (asksForToken s i.now = true → i.token.hasShape tokenShape = true) ∨
          i.thermostat.hasShape thermostatShape = false) := by
      rw [EcobeeInput.Bad, Classical.not_imp, Bool.not_eq_true]
    rw [hread, hbad, EcobeeInput.Fits, and_iff_right hf, imp_iff_right hg]
    cases hth : i.thermostat with
    | failed => exact iff_of_true (meets_zero _) trivial
    | unsendable => exact iff_of_true (meets_zero _) trivial
    | body l =>
      cases l with
      | value data =>
        exact (thermostats_meets_iff py s' _ data).trans (thermostatFits_congr _ data hd)
      | tooDeep => exact iff_of_false (not_meets_error _ _) id
      | _ => exact iff_of_true (meets_zero _) trivial
  · have hread : s.read py i = ecobeeFailed s' e := by rw [EcobeeHeatSource.read, hs]
    rw [hread, ecobeeFailed_meets_iff, ← hf]
    exact ⟨fun h => ⟨h, fun h' => absurd h' hg⟩, fun h => h.1⟩

end HadcdAgent.HeatSource
