import HadcdAgent.Lib.Json

/-!
# The persisted agent state

`AgentState` (`agent/state.py`). The state file is taken by what `json.loads` makes
of its text; `json.dump` of the payload is read back as the payload.
-/

namespace HadcdAgent

open Lib

structure AgentState where
  nodeId : Option Str
  nodeToken : Option Str
  savedSetpointC : Option PyFloat
  cachedModels : List Str
  deriving DecidableEq

namespace AgentState

def new : AgentState := ⟨none, none, none, []⟩

def enrolled (s : AgentState) : Bool := s.nodeId.isSome && s.nodeToken.isSome

/-- The state file as `load` finds it; `unseen` is one whose `exists` raises, ahead of
the `try`, and `osError` one that `read_text` cannot read. -/
inductive StateFile where
  | missing
  | unseen
  | osError
  | notUtf8
  | notJson
  | tooDeep
  | tooManyDigits
  | json (data : Json)

inductive LoadError where
  | osError
  | unicodeDecodeError
  | recursionError
  | valueError
  | attributeError
  | overflowError
  deriving DecidableEq

/-- `float(saved) if isinstance(saved, (int, float)) else None`. -/
def loadSetpoint : Json → Except LoadError (Option PyFloat)
  | .bool b => .ok (some (.fin (if b then 1 else 0)))
  | .int n =>
    match floatOfInt n with
    | some x => .ok (some x)
    | none => .error .overflowError
  | .float x => .ok (some x)
  | _ => .ok none

/-- `[m for m in cached if isinstance(m, str)] if isinstance(cached, list) else []`. -/
def loadModels : Json → List Str
  | .arr xs => xs.filterMap fun x => match x with
    | .str m => some m
    | _ => none
  | _ => []

def load (s : AgentState) : StateFile → Except LoadError (Bool × AgentState)
  | .missing | .osError | .notJson => .ok (false, s)
  | .unseen => .error .osError
  | .notUtf8 => .error .unicodeDecodeError
  | .tooDeep => .error .recursionError
  | .tooManyDigits => .error .valueError
  | .json (.obj data) =>
    match Json.get data "node_id", Json.get data "node_token" with
    | .str nodeId, .str nodeToken => do
      let saved ← loadSetpoint (Json.get data "saved_setpoint_c")
      pure (true, ⟨some nodeId, some nodeToken, saved, loadModels (Json.get data "cached_models")⟩)
    | _, _ => .ok (false, s)
  | .json _ => .error .attributeError

def payload (nodeId nodeToken : Str) (s : AgentState) : List (Str × Json) :=
  let saved : List (Str × Json) := match s.savedSetpointC with
    | none => []
    | some x => [("saved_setpoint_c", Json.float x)]
  let cached : List (Str × Json) := match s.cachedModels with
    | [] => []
    | models => [("cached_models", Json.arr (models.map Json.str))]
  ("node_id", .str nodeId) :: ("node_token", .str nodeToken) :: (saved ++ cached)

/-- `AgentState.save`: the file after it, `none` when it raises and leaves the file
as it was. `written` tells whether the steps on the file system succeed. -/
def save (s : AgentState) (written : Bool) : Option StateFile :=
  match s.nodeId, s.nodeToken with
  | some nodeId, some nodeToken =>
    if written then some (.json (.obj (payload nodeId nodeToken s))) else none
  | _, _ => none

theorem loadModels_map (ms : List Str) : loadModels (.arr (ms.map Json.str)) = ms := by
  induction ms with
  | nil => rfl
  | cons m ms ih =>
    simp only [loadModels, List.map_cons, List.filterMap_cons] at ih ⊢
    rw [ih]

theorem loadSetpoint_payload (nodeId nodeToken : Str) (s : AgentState) :
    loadSetpoint (Json.get (payload nodeId nodeToken s) "saved_setpoint_c") =
      .ok s.savedSetpointC := by
  obtain ⟨i, t, saved, models⟩ := s
  cases saved <;> cases models <;> rfl

theorem loadModels_payload (nodeId nodeToken : Str) (s : AgentState) :
    loadModels (Json.get (payload nodeId nodeToken s) "cached_models") = s.cachedModels := by
  obtain ⟨i, t, saved, models⟩ := s
  cases models with
  | nil => cases saved <;> rfl
  | cons m ms =>
    have hget : Json.get (payload nodeId nodeToken ⟨i, t, saved, m :: ms⟩) "cached_models" =
        .arr ((m :: ms).map Json.str) := by cases saved <;> rfl
    rw [hget, loadModels_map]

/-- A completed save is loaded back whole. -/
theorem load_save {s : AgentState} {file : StateFile} (h : s.save true = some file) :
    new.load file = .ok (true, s) := by
  obtain ⟨nodeId, nodeToken, saved, models⟩ := s
  cases nodeId with
  | none => cases h
  | some nodeId =>
    cases nodeToken with
    | none => cases h
    | some nodeToken =>
      cases h
      have hid : Json.get (payload nodeId nodeToken ⟨some nodeId, some nodeToken, saved, models⟩)
          "node_id" = .str nodeId := rfl
      have htoken : Json.get (payload nodeId nodeToken ⟨some nodeId, some nodeToken, saved, models⟩)
          "node_token" = .str nodeToken := rfl
      rw [load, hid, htoken]
      simp only [loadSetpoint_payload, loadModels_payload]
      rfl

theorem save_eq_some {s : AgentState} (h : s.enrolled = true) :
    ∃ file, s.save true = some file := by
  obtain ⟨nodeId, nodeToken, saved, models⟩ := s
  cases nodeId <;> cases nodeToken <;> simp [enrolled] at h
  exact ⟨_, rfl⟩

end AgentState
end HadcdAgent
