import HadcdAgent.HeatSource.Reading
import HadcdAgent.Heartbeat.Tick

/-!
# The two demand channels

`Agent._demand_loop` and the `needs_heat` field of `Agent._heartbeat_loop`
(`agent/agent.py`). Between two awaits a loop runs alone, so an input is what one
loop does after an await: the heartbeat's body is built, a response is handled, the
thermostat has been read.
-/

namespace HadcdAgent.Demand

open Lib HeatOverride HeatSource

/-! ### The source -/

structure Flags where
  heatOverrideActive : Bool
  needsHeat : Bool

/-- `HeatReading.to_api_payload`. -/
def toApiPayload (r : HeatReading) : List (Str × Json) :=
  [("measured_kw", .float r.measuredKw),
    ("expected_window_sec", (r.expectedWindowSec.map Json.int).getD .null),
    ("setpoint_c", (r.setpointC.map Json.float).getD .null),
    ("room_temp_c", (r.roomTempC.map Json.float).getD .null)]

def vacant (r : HeatReading) : HeatReading := { r with measuredKw := .fin 0, expectedWindowSec := none }

def reported (f : Flags) (reading : HeatReading) : HeatReading :=
  if f.heatOverrideActive then vacant reading else reading

/-- A tick of the demand loop behind its read: the flags and the body of the POST. -/
def demandTick (alwaysOn : Bool) (f : Flags) (reading : HeatReading) :
    Flags × List (Str × Json) :=
  let reading := reported f reading
  ({ f with needsHeat := if alwaysOn then f.needsHeat else reading.measuredKw.isPos },
    toApiPayload reading)

/-- What a handled response does to the flags; `needs_heat` is left alone. -/
def handleOverride (f : Flags) (r : Response) : Flags := { f with heatOverrideActive := r.setback }

inductive Input where
  | heartbeat
  | response (r : Response)
  | demand (reading : HeatReading)

/-- `onset` is `_needs_heat` when the override came into force, `reread` that the
demand loop has handled a reading since. -/
structure Watched where
  flags : Flags
  onset : Bool
  reread : Bool

def start : Watched := ⟨⟨false, false⟩, false, false⟩

def step (alwaysOn : Bool) (w : Watched) : Input → Watched
  | .heartbeat => w
  | .response r =>
    if r.setback && !w.flags.heatOverrideActive then
      ⟨handleOverride w.flags r, w.flags.needsHeat, false⟩
    else { w with flags := handleOverride w.flags r }
  | .demand reading => { w with flags := (demandTick alwaysOn w.flags reading).1, reread := true }

/-! ### A vacant room -/

/-- A body that is built while the override is active reports no demand. -/
def ReportsNoDemand (alwaysOn : Bool) (w : Watched) : Input → Prop
  | .heartbeat => w.flags.heatOverrideActive = true → w.flags.needsHeat = false
  | .response _ => True
  | .demand reading => w.flags.heatOverrideActive = true →
      let body := (demandTick alwaysOn w.flags reading).2
      Json.get body "measured_kw" = .float (.fin 0) ∧ Json.get body "expected_window_sec" = .null

/-- A heartbeat under an override that found `needs_heat` set comes after a tick of
the demand loop. -/
def RereadFirst (w : Watched) : Input → Prop
  | .heartbeat => w.flags.heatOverrideActive = true → w.onset = true → w.reread = true
  | .response _ | .demand _ => True

structure Cached (alwaysOn : Bool) (w : Watched) : Prop where
  neverSet : alwaysOn = true → w.flags.needsHeat = false
  underOverride : w.flags.heatOverrideActive = true → w.flags.needsHeat = (w.onset && !w.reread)

theorem cached_start (alwaysOn : Bool) : Cached alwaysOn start := ⟨fun _ => rfl, fun h => by cases h⟩

theorem isPos_reported {f : Flags} (h : f.heatOverrideActive = true) (reading : HeatReading) :
    (reported f reading).measuredKw.isPos = false := by
  rw [reported, if_pos h]
  rfl

theorem cached_step {alwaysOn : Bool} {w : Watched} (h : Cached alwaysOn w) (i : Input) :
    Cached alwaysOn (step alwaysOn w i) := by
  cases i with
  | heartbeat => exact h
  | response r =>
    simp only [step]
    split_ifs with honset
    · exact ⟨h.neverSet, fun _ => by simp [handleOverride]⟩
    · refine ⟨h.neverSet, ?_⟩
      intro hact
      have hset : r.setback = true := hact
      have hwas : w.flags.heatOverrideActive = true := by simpa [hset] using honset
      exact h.underOverride hwas
  | demand reading =>
    refine ⟨?_, ?_⟩
    · intro ha
      simp only [step, demandTick, ha, if_true]
      exact h.neverSet ha
    · intro hact
      have hwas : w.flags.heatOverrideActive = true := hact
      simp only [step, demandTick, isPos_reported hwas, Bool.not_true, Bool.and_false]
      cases ha : alwaysOn with
      | true => exact h.neverSet ha
      | false => rfl

theorem reportsNoDemand_iff {alwaysOn : Bool} {w : Watched} (h : Cached alwaysOn w) (i : Input) :
    ReportsNoDemand alwaysOn w i ↔ RereadFirst w i := by
  cases i with
  | heartbeat =>
    refine imp_congr_right fun hact => ?_
    rw [h.underOverride hact]
    cases w.onset <;> cases w.reread <;> decide
  | response r => exact Iff.rfl
  | demand reading =>
    refine iff_of_true ?_ trivial
    intro hact
    simp only [demandTick, reported, if_pos hact]
    exact ⟨rfl, rfl⟩

/-- In every interleaving of the two loops a vacant room reports no demand exactly
when no heartbeat is built between an override that finds `needs_heat` set and the
next tick of the demand loop. -/
theorem reportsNoDemand_iff_rereadFirst (alwaysOn : Bool) (inputs : List Input) :
    Run.Along (Run.total (step alwaysOn)) (ReportsNoDemand alwaysOn) start inputs ↔
      Run.Along (Run.total (step alwaysOn)) RereadFirst start inputs := by
  have hkeep : ∀ w i w', Cached alwaysOn w → Run.total (step alwaysOn) w i = some w' →
      Cached alwaysOn w' := by
    intro w i w' h hw
    cases hw
    exact cached_step h i
  exact Run.along_congr hkeep (fun w i h => reportsNoDemand_iff h i) (cached_start alwaysOn)

/-- A room that is being heated is marked vacant, and the next heartbeat comes
before the next thermostat reading. -/
theorem not_reportsNoDemand_heating :
    ¬ Run.Along (Run.total (step false)) (ReportsNoDemand false) start
      ([.demand ⟨.fin 2, some (.fin 21), some (.fin 19), some 900⟩, .heartbeat,
        .response ⟨true, none⟩] ++ [.heartbeat]) := by
  intro h
  have hlast := h.at rfl
  exact absurd (hlast rfl) (by decide)

end HadcdAgent.Demand
