import HadcdAgent.Lib.Run
import HadcdAgent.AgentState

/-!
# Vacancy setback and restore

`Agent._apply_heat_override` (`agent/agent.py`) with the state file it saves to, a
thermostat that it reads and writes, and restarts in between.
-/

namespace HadcdAgent.HeatOverride

open Lib AgentState

/-! ### The source -/

inductive ReadOutcome where
  | works
  | noSetpoint
  | raises
  deriving DecidableEq

inductive WriteOutcome where
  | accepted
  | rejected
  | raises
  deriving DecidableEq

/-- How the calls of one handled response end. -/
structure Outcomes where
  read : ReadOutcome
  write : WriteOutcome
  saved : Bool

/-- `heat_override == "setback"` and `setback_temp_c` of a response. -/
structure Response where
  setback : Bool
  setbackTempC : Option PyFloat

structure Node where
  overrideActive : Bool
  state : AgentState
  file : StateFile
  thermostat : PyFloat

/-- `self.state.save()` where an exception is caught. -/
def persist (n : Node) (written : Bool) : Node :=
  match n.state.save written with
  | some file => { n with file := file }
  | none => n

def setSaved (n : Node) (x : Option PyFloat) : Node :=
  { n with state := { n.state with savedSetpointC := x } }

def setSetpoint (n : Node) (x : PyFloat) (write : WriteOutcome) : Node :=
  match write with
  | .accepted => { n with thermostat := x }
  | .rejected | .raises => n

/-- The `try` block that remembers the setpoint unless one is remembered. -/
def capture (n : Node) (o : Outcomes) : Node :=
  match n.state.savedSetpointC, o.read with
  | none, .works => persist (setSaved n (some n.thermostat)) o.saved
  | none, .noSetpoint | none, .raises => n
  | some _, _ => n

/-- The restoring branch; an exception of the write leaves it. -/
def restore (n : Node) (o : Outcomes) : Node :=
  match n.state.savedSetpointC with
  | none => n
  | some saved =>
    match o.write with
    | .raises => n
    | write => persist (setSaved (setSetpoint n saved write) none) o.saved

/-- `_apply_heat_override`; `default` is the settings' `setback_temp_c`. -/
def applyHeatOverride (default : PyFloat) (n : Node) (r : Response) (o : Outcomes) : Node :=
  if r.setback = n.overrideActive then n
  else
    let n := { n with overrideActive := r.setback }
    if r.setback then setSetpoint (capture n o) (r.setbackTempC.getD default) o.write
    else restore n o

/-- A new process: the state is loaded and no override is known; `none` when the
load raises. -/
def restart (n : Node) : Option Node :=
  match new.load n.file with
  | .ok (_, state) => some { n with overrideActive := false, state := state }
  | .error _ => none

/-! ### Runs with everything working -/

inductive Event where
  | response (r : Response)
  | restart

def works : Outcomes := ⟨.works, .accepted, true⟩

def step (default : PyFloat) (n : Node) : Event → Option Node
  | .response r => some (applyHeatOverride default n r works)
  | .restart => restart n

def start (nodeId nodeToken : Str) (models : List Str) (setpoint : PyFloat) : Node :=
  let state : AgentState := ⟨some nodeId, some nodeToken, none, models⟩
  ⟨false, state, .json (.obj (payload nodeId nodeToken state)), setpoint⟩

def RoundTrips (default setpoint : PyFloat) (n : Node) : Event → Prop
  | .response r =>
    let t := applyHeatOverride default n r works
    if r.setback then t.state.savedSetpointC = some setpoint
    else t.thermostat = setpoint ∧ t.state.savedSetpointC = none
  | .restart => True

/-- A cleared response does not come while a setpoint is remembered by a process
that has not seen the setback. -/
def SetbackSeen (n : Node) : Event → Prop
  | .response r =>
    r.setback = false → n.overrideActive = false → n.state.savedSetpointC = none
  | .restart => True

/-! ### The invariant -/

/-- The state is on disk, and either nothing is remembered and the thermostat is
where it was, or exactly the old setpoint is remembered. -/
structure Kept (setpoint : PyFloat) (n : Node) : Prop where
  onDisk : n.state.save true = some n.file
  phase : n.overrideActive = false ∧ n.state.savedSetpointC = none ∧ n.thermostat = setpoint ∨
    n.state.savedSetpointC = some setpoint

theorem kept_start (nodeId nodeToken : Str) (models : List Str) (setpoint : PyFloat) :
    Kept setpoint (start nodeId nodeToken models setpoint) :=
  ⟨rfl, Or.inl ⟨rfl, rfl, rfl⟩⟩

theorem save_setSaved {n : Node} (h : n.state.save true = some n.file) (x : Option PyFloat) :
    ∃ file, (setSaved n x).state.save true = some file := by
  apply save_eq_some
  obtain ⟨b, ⟨nodeId, nodeToken, saved, models⟩, f, t⟩ := n
  cases nodeId <;> cases nodeToken <;> first | rfl | cases h

theorem persist_setSaved {n : Node} (h : n.state.save true = some n.file) (x : Option PyFloat) :
    (persist (setSaved n x) true).state.save true = some (persist (setSaved n x) true).file ∧
      (persist (setSaved n x) true).state.savedSetpointC = x ∧
      (persist (setSaved n x) true).overrideActive = n.overrideActive ∧
      (persist (setSaved n x) true).thermostat = n.thermostat := by
  obtain ⟨file, hfile⟩ := save_setSaved h x
  have hp : persist (setSaved n x) true = { setSaved n x with file := file } := by
    rw [persist, hfile]
  rw [hp]
  exact ⟨hfile, rfl, rfl, rfl⟩

theorem kept_setback {setpoint : PyFloat} {n : Node} (h : Kept setpoint n) (default : PyFloat)
    {r : Response} (hr : r.setback = true) :
    Kept setpoint (applyHeatOverride default n r works) ∧
      (applyHeatOverride default n r works).state.savedSetpointC = some setpoint := by
  obtain ⟨hdisk, hphase⟩ := h
  rw [applyHeatOverride, hr]
  by_cases ho : n.overrideActive = true
  · rw [if_pos ho.symm]
    rcases hphase with ⟨hoff, -, -⟩ | hs
    · rw [hoff] at ho
      cases ho
    · exact ⟨⟨hdisk, Or.inr hs⟩, hs⟩
  · rw [if_neg fun he => ho he.symm]
    rcases hphase with ⟨-, hnone, ht⟩ | hs
    · obtain ⟨hd, hsv, -, -⟩ :=
        persist_setSaved (n := { n with overrideActive := true }) hdisk (some n.thermostat)
      have hcap : capture { n with overrideActive := true } works =
          persist (setSaved { n with overrideActive := true } (some n.thermostat)) true := by
        simp only [capture, hnone]
        rfl
      simp only [if_true, hcap]
      rw [ht] at hsv hd ⊢
      exact ⟨⟨hd, Or.inr hsv⟩, hsv⟩
    · have hcap : capture { n with overrideActive := true } works =
          { n with overrideActive := true } := by
        simp only [capture, hs]
      simp only [if_true, hcap]
      exact ⟨⟨hdisk, Or.inr hs⟩, hs⟩

theorem kept_cleared {setpoint : PyFloat} {n : Node} (h : Kept setpoint n) (default : PyFloat)
    {r : Response} (hr : r.setback = false) :
    Kept setpoint (applyHeatOverride default n r works) ∧
      ((applyHeatOverride default n r works).thermostat = setpoint ∧
        (applyHeatOverride default n r works).state.savedSetpointC = none ↔
        (n.overrideActive = false → n.state.savedSetpointC = none)) := by
  obtain ⟨hdisk, hphase⟩ := h
  rw [applyHeatOverride, hr]
  by_cases ho : n.overrideActive = false
  · rw [if_pos ho.symm]
    refine ⟨⟨hdisk, hphase⟩, fun hp _ => hp.2, fun hn => ?_⟩
    rcases hphase with ⟨-, -, ht⟩ | hs
    · exact ⟨ht, hn ho⟩
    · rw [hn ho] at hs
      cases hs
  · rw [if_neg fun he => ho he.symm]
    rcases hphase with ⟨hoff, -, -⟩ | hs
    · exact absurd hoff ho
    · obtain ⟨hd, hsv, hact, hth⟩ := persist_setSaved
        (n := { n with overrideActive := false, thermostat := setpoint }) hdisk none
      have hres : restore { n with overrideActive := false } works = persist (setSaved
          { n with overrideActive := false, thermostat := setpoint } none) true := by
        simp only [restore, hs]
        rfl
      simp only [Bool.false_eq_true, if_false, hres]
      exact ⟨⟨hd, Or.inl ⟨hact, hsv, hth⟩⟩, fun _ hoff => absurd hoff ho, fun _ => ⟨hth, hsv⟩⟩

theorem kept_restart {setpoint : PyFloat} {n t : Node} (h : Kept setpoint n)
    (ht : restart n = some t) : Kept setpoint t := by
  simp only [restart, load_save h.onDisk, Option.some.injEq] at ht
  subst ht
  refine ⟨h.onDisk, ?_⟩
  rcases h.phase with ⟨-, hnone, hth⟩ | hs
  · exact Or.inl ⟨rfl, hnone, hth⟩
  · exact Or.inr hs

theorem kept_step (default setpoint : PyFloat) (n : Node) (e : Event) (t : Node)
    (h : Kept setpoint n) (ht : step default n e = some t) : Kept setpoint t := by
  cases e with
  | response r =>
    cases Option.some.inj ht
    cases hr : r.setback with
    | true => exact (kept_setback h default hr).1
    | false => exact (kept_cleared h default hr).1
  | restart => exact kept_restart h ht

theorem roundTrips_iff_setbackSeen (default setpoint : PyFloat) (n : Node) (e : Event)
    (h : Kept setpoint n) : RoundTrips default setpoint n e ↔ SetbackSeen n e := by
  cases e with
  | response r =>
    simp only [RoundTrips, SetbackSeen]
    cases hr : r.setback with
    | true => simp [(kept_setback h default hr).2]
    | false => simpa using (kept_cleared h default hr).2
  | restart => exact Iff.rfl

/-- Along every run of responses and restarts, setback and restore are a round
trip exactly when no cleared response comes before the process has seen the
setback that is remembered. -/
theorem roundTrips_iff (default : PyFloat) (nodeId nodeToken : Str) (models : List Str)
    (setpoint : PyFloat) (events : List Event) :
    Run.Along (step default) (RoundTrips default setpoint)
        (start nodeId nodeToken models setpoint) events ↔
      Run.Along (step default) SetbackSeen (start nodeId nodeToken models setpoint) events :=
  Run.along_congr (kept_step default setpoint) (roundTrips_iff_setbackSeen default setpoint)
    (kept_start nodeId nodeToken models setpoint)

def restartRun : List Event := [.response ⟨true, none⟩, .restart, .response ⟨false, none⟩]

theorem not_roundTrips_restartRun :
    ¬ Run.Along (step (.fin 16)) (RoundTrips (.fin 16) (.fin 21)) (start "n" "t" [] (.fin 21))
      restartRun := by
  intro h
  obtain ⟨-, h⟩ := h
  obtain ⟨-, h⟩ := h _ rfl
  obtain ⟨hlast, -⟩ := h _ rfl
  exact absurd hlast.1 (by decide)

end HadcdAgent.HeatOverride
