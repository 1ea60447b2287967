import HadcdAgent.AgentState.Store

/-!
# Loading any state file

`AgentState.load` (`agent/state.py`) on every content of the file: only `OSError` and
`JSONDecodeError` are handled, and only around the reading and the parsing. `exists` stands
ahead of that: it answers `False` for a path that leads nowhere and raises what else
`stat` fails with.
-/

namespace HadcdAgent.AgentState

open Lib Lib.PyStr

/-! ### The file -/

/-- What `exists` and `read_text` find; `unseen` is an `OSError` of `exists`, `refused` one
of `read_text`. -/
inductive Found where
  | missing
  | unseen
  | refused
  | bytes (content : List UInt8)

def Found.file (loads : Str → Loads) : Found → StateFile
  | missing => .missing
  | unseen => .unseen
  | refused => .osError
  | bytes content => ofBytes loads content

def HasIdentity (data : List (Str × Json)) : Prop :=
  ∃ nodeId nodeToken, Json.get data "node_id" = .str nodeId ∧
    Json.get data "node_token" = .str nodeToken

/-- A JSON object whose `node_id` and `node_token` are strings. -/
def HoldsIdentity (file : StateFile) : Prop := ∃ data, file = .json (.obj data) ∧ HasIdentity data

/-- `load` raises nothing: it returns `True` for an identity, else `False` with the state
as it was. -/
def Starts (loads : Str → Loads) (s : AgentState) (found : Found) : Prop :=
  ∃ loaded s', s.load (found.file loads) = .ok (loaded, s') ∧
    (loaded = true ↔ HoldsIdentity (found.file loads)) ∧ (loaded = false → s' = s)

/-- What is parsed is an object, and with an identity comes no integer that `float`
refuses as `saved_setpoint_c`. -/
def ParsedFits : Loads → Prop
  | .notJson => True
  | .value (.obj data) => HasIdentity data → (Json.get data "saved_setpoint_c").isHuge = false
  | .value _ | .notUtf8 | .tooManyDigits | .tooDeep => False

def Fits (loads : Str → Loads) : Found → Prop
  | .missing | .refused => True
  | .unseen => False
  | .bytes content => ∃ text, decodeUtf8 content = some text ∧ ParsedFits (loads text)

/-! ### The loaded object -/

theorem loadSetpoint_of_isHuge {x : Json} (h : x.isHuge = true) :
    loadSetpoint x = .error .overflowError := by
  cases x with
  | int n =>
    rw [Json.isHuge, Option.isNone_iff_eq_none] at h
    rw [loadSetpoint, h]
  | _ => cases h

theorem loadSetpoint_of_not_isHuge {x : Json} (h : x.isHuge = false) :
    ∃ saved, loadSetpoint x = .ok saved := by
  cases x with
  | int n =>
    rw [Json.isHuge, Option.isNone_eq_false_iff, Option.isSome_iff_exists] at h
    obtain ⟨y, hy⟩ := h
    exact ⟨some y, by rw [loadSetpoint, hy]⟩
  | _ => exact ⟨_, rfl⟩

section

variable {s : AgentState} {data : List (Str × Json)}

theorem load_of_hasIdentity (h : HasIdentity data) :
    ∃ loaded : Option PyFloat → AgentState, s.load (.json (.obj data)) =
      (loadSetpoint (Json.get data "saved_setpoint_c")).map fun saved => (true, loaded saved) := by
  obtain ⟨nodeId, nodeToken, hid, htoken⟩ := h
  refine ⟨fun saved => ⟨some nodeId, some nodeToken, saved,
    loadModels (Json.get data "cached_models")⟩, ?_⟩
  rw [load, hid, htoken]
  rfl

theorem load_of_not_hasIdentity (h : ¬ HasIdentity data) :
    s.load (.json (.obj data)) = .ok (false, s) := by
  rw [load]
  split
  case h_1 nodeId nodeToken hid htoken => exact absurd ⟨nodeId, nodeToken, hid, htoken⟩ h
  case h_2 => rfl

theorem holdsIdentity_obj : HoldsIdentity (.json (.obj data)) ↔ HasIdentity data := by
  constructor
  · rintro ⟨_, heq, h⟩
    cases heq
    exact h
  · intro h
    exact ⟨data, rfl, h⟩

end

/-! ### Every way to raise -/

section

variable {loads : Str → Loads} {s : AgentState} {found : Found}

theorem not_starts_of_error {e : LoadError} (h : s.load (found.file loads) = .error e) :
    ¬ Starts loads s found := by
  rintro ⟨loaded, s', hload, -⟩
  rw [h] at hload
  cases hload

theorem starts_of_false (hload : s.load (found.file loads) = .ok (false, s))
    (hnot : ¬ HoldsIdentity (found.file loads)) : Starts loads s found :=
  ⟨false, s, hload, iff_of_false Bool.false_ne_true hnot, fun _ => rfl⟩

theorem not_holdsIdentity {file : StateFile} (h : ∀ data, file ≠ .json (.obj data)) :
    ¬ HoldsIdentity file := by
  rintro ⟨data, hfile, -⟩
  exact h data hfile

theorem starts_obj_iff {data : List (Str × Json)} (hfile : found.file loads = .json (.obj data)) :
    Starts loads s found ↔
      (HasIdentity data → (Json.get data "saved_setpoint_c").isHuge = false) := by
  by_cases hid : HasIdentity data
  · rw [imp_iff_right hid]
    obtain ⟨loaded, hload⟩ := load_of_hasIdentity (s := s) hid
    cases hhuge : (Json.get data "saved_setpoint_c").isHuge with
    | true =>
      rw [loadSetpoint_of_isHuge hhuge, ← hfile] at hload
      exact iff_of_false (not_starts_of_error hload) (by simp)
    | false =>
      obtain ⟨saved, hsaved⟩ := loadSetpoint_of_not_isHuge hhuge
      rw [hsaved, ← hfile] at hload
      refine iff_of_true ⟨true, loaded saved, hload, ?_, fun h => (by cases h)⟩ rfl
      rw [hfile]
      exact iff_of_true rfl (holdsIdentity_obj.mpr hid)
  · have hload : s.load (found.file loads) = .ok (false, s) := by
      rw [hfile]
      exact load_of_not_hasIdentity hid
    refine iff_of_true (starts_of_false hload ?_) fun h => absurd h hid
    rw [hfile, holdsIdentity_obj]
    exact hid

theorem starts_parsed_iff {parsed : Loads} (hfile : found.file loads = ofLoads parsed) :
    Starts loads s found ↔ ParsedFits parsed := by
  cases parsed with
  | value data =>
    cases data with
    | obj data => exact starts_obj_iff hfile
    | _ =>
      refine iff_of_false (not_starts_of_error (e := .attributeError) ?_) id
      rw [hfile]
      rfl
  | notJson =>
    refine iff_of_true (starts_of_false ?_ ?_) trivial
    · rw [hfile]
      rfl
    · rw [hfile]
      exact not_holdsIdentity fun _ h => (by cases h)
  | notUtf8 =>
    refine iff_of_false (not_starts_of_error (e := .unicodeDecodeError) ?_) id
    rw [hfile]
    rfl
  | tooManyDigits =>
    refine iff_of_false (not_starts_of_error (e := .valueError) ?_) id
    rw [hfile]
    rfl
  | tooDeep =>
    refine iff_of_false (not_starts_of_error (e := .recursionError) ?_) id
    rw [hfile]
    rfl

end

/-- `load` keeps to its contract exactly on the contents that fit. -/
theorem starts_iff_fits (loads : Str → Loads) (s : AgentState) (found : Found) :
    Starts loads s found ↔ Fits loads found := by
  cases found with
  | missing =>
    have hnot : ¬ HoldsIdentity .missing := not_holdsIdentity (by intro _ h; cases h)
    exact iff_of_true (starts_of_false rfl hnot) trivial
  | unseen => exact iff_of_false (not_starts_of_error (e := .osError) rfl) id
  | refused =>
    have hnot : ¬ HoldsIdentity .osError := not_holdsIdentity (by intro _ h; cases h)
    exact iff_of_true (starts_of_false rfl hnot) trivial
  | bytes content =>
    rw [Fits]
    cases htext : decodeUtf8 content with
    | none =>
      have hfile : (Found.bytes content).file loads = .notUtf8 := by
        rw [Found.file, ofBytes, htext]
      refine iff_of_false (not_starts_of_error (e := .unicodeDecodeError) ?_) ?_
      · rw [hfile]
        rfl
      · rintro ⟨text, h, -⟩
        cases h
    | some text =>
      have hfile : (Found.bytes content).file loads = ofLoads (loads text) := by
        rw [Found.file, ofBytes, htext]
      rw [starts_parsed_iff hfile]
      constructor
      · intro h
        exact ⟨text, rfl, h⟩
      · rintro ⟨text', heq, h⟩
        cases heq
        exact h

/-- A file of the one byte `0xff` makes `load` raise `UnicodeDecodeError`. -/
theorem not_starts_not_utf8 : ¬ Starts (fun _ => .notJson) new (.bytes [0xff]) := by
  refine not_starts_of_error (e := .unicodeDecodeError) ?_
  have htext : decodeUtf8 [0xff] = none := by decide
  rw [Found.file, ofBytes, htext]
  rfl

end HadcdAgent.AgentState
