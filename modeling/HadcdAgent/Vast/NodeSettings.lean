import HadcdAgent.HeatSource.Reading
import HadcdAgent.Vast.LocalSchedule

/-!
# The local schedule and the settings of the node

`Agent._local_vast_schedule` (`agent/agent.py`): the coordinates, the thresholds and
the hours of `AgentSettings`, and the setpoint of the thermostat.
-/

namespace HadcdAgent.Vast

open Lib
open HeatSource (HeatReading)

/-! ### The source -/

/-- The fields of `AgentSettings` for the schedule of an offline node. -/
structure NodeSettings where
  nodeLatitude : Option PyFloat
  nodeLongitude : Option PyFloat
  vastColdThresholdC : PyFloat
  vastMinColdHours : PyFloat
  vastHotThresholdC : Option PyFloat
  vastMinHotHours : PyFloat

/-- The truth of an optional float: `0.0` is false. -/
def isSet : Option PyFloat → Bool
  | none => false
  | some x => x ≠ .fin 0

/-- `max(x, y)`: the second one only where it is greater. -/
def pyMax (x y : PyFloat) : PyFloat := if x.lt y then y else x

/-- `reading` is `none` when `heat_source.read()` raises. -/
def hotThreshold (s : NodeSettings) (reading : Option HeatReading) : PyFloat :=
  let floor := s.vastHotThresholdC.getD (.fin 16)
  match reading.bind HeatReading.setpointC with
  | some setpoint => pyMax floor setpoint
  | none => floor

/-- What the call of `build_vast_schedule` passes. -/
def localBand (s : NodeSettings) (reading : Option HeatReading) : Band :=
  ⟨s.vastColdThresholdC, some (hotThreshold s reading), s.vastMinColdHours⟩

/-- `forecast` is `none` when `fetch_forecast` raises. -/
def localVastSchedule (s : NodeSettings) (forecast : Option HourlyForecast)
    (reading : Option HeatReading) (now : ℤ) : Option LocalSchedule :=
  if !isSet s.nodeLatitude || !isSet s.nodeLongitude then none
  else forecast.map fun f => buildVastSchedule f (localBand s reading) now

/-! ### What the settings ask for -/

/-- A schedule, with the cold runs of `vast_min_cold_hours` and the hot runs of
`vast_min_hot_hours` for its windows. -/
structure HonoursSettings (s : NodeSettings) (f : HourlyForecast) (reading : Option HeatReading) :
    Prop where
  schedule : ∀ now, localVastSchedule s (some f) reading now =
    some (buildVastSchedule f (localBand s reading) now)
  cold : ∀ w, w ∈ coldWindows f (localBand s reading).thresholdC (localBand s reading).minHours ↔
    IsWindow (fun temp => temp.lt s.vastColdThresholdC) s.vastMinColdHours f.pairs w
  hot : ∀ w, w ∈ hotWindowsOf f (localBand s reading) ↔
    IsWindow (fun temp => (hotThreshold s reading).lt temp) s.vastMinHotHours f.pairs w

def IsRunWindow (inside : PyFloat → Bool) (hours : List Hour) (w : Window) : Prop :=
  ∃ run, MaximalRun (fun h => inside h.2) hours run ∧
    run.head?.map Prod.fst = some w.start ∧
    run.getLast?.map (fun h => h.1 + oneHour) = some w.finish

def Window.lasts (w : Window) (minHours : PyFloat) : Prop :=
  (PyFloat.fin w.durationHours).lt minHours = false

theorem isWindow_iff_lasts {inside : PyFloat → Bool} {minHours : PyFloat} {hours : List Hour}
    {w : Window} :
    IsWindow inside minHours hours w ↔ IsRunWindow inside hours w ∧ w.lasts minHours := by
  constructor
  · rintro ⟨run, hmax, hstart, hfinish, hlong⟩
    exact ⟨⟨run, hmax, hstart, hfinish⟩, hlong⟩
  · rintro ⟨⟨run, hmax, hstart, hfinish⟩, hlong⟩
    exact ⟨run, hmax, hstart, hfinish, hlong⟩

section Settings

variable {s : NodeSettings} {f : HourlyForecast} {reading : Option HeatReading}

theorem isSet_some_iff {x : PyFloat} : isSet (some x) = true ↔ x ≠ .fin 0 := by
  rw [isSet, decide_eq_true_eq]

theorem localVastSchedule_eq_iff {now : ℤ} :
    localVastSchedule s (some f) reading now =
        some (buildVastSchedule f (localBand s reading) now) ↔
      isSet s.nodeLatitude = true ∧ isSet s.nodeLongitude = true := by
  rw [localVastSchedule]
  cases isSet s.nodeLatitude with
  | false => simp
  | true =>
    cases isSet s.nodeLongitude with
    | false => simp
    | true => simp

/-- A coordinate of zero is taken for one that is missing. -/
theorem localVastSchedule_eq_none {now : ℤ} {forecast : Option HourlyForecast}
    (h : isSet s.nodeLatitude = false ∨ isSet s.nodeLongitude = false) :
    localVastSchedule s forecast reading now = none := by
  rw [localVastSchedule]
  rcases h with h | h
  · simp [h]
  · simp [h]

/-- The hot windows are those of the runs that last `vast_min_cold_hours`. -/
theorem mem_hotWindowsOf_localBand_iff {w : Window} :
    w ∈ hotWindowsOf f (localBand s reading) ↔
      IsRunWindow (fun temp => (hotThreshold s reading).lt temp) f.pairs w ∧
        w.lasts s.vastMinColdHours := by
  rw [← isWindow_iff_lasts]
  exact mem_windows_iff

end Settings

/-- The settings are honoured off the zero coordinates where no hot run lasts one of
the minimal hours and not the other. -/
theorem honoursSettings_iff (s : NodeSettings) (f : HourlyForecast) (reading : Option HeatReading)
    (latitude longitude : PyFloat) (hlat : s.nodeLatitude = some latitude)
    (hlon : s.nodeLongitude = some longitude) :
    HonoursSettings s f reading ↔ latitude ≠ .fin 0 ∧ longitude ≠ .fin 0 ∧
      ∀ w, IsRunWindow (fun temp => (hotThreshold s reading).lt temp) f.pairs w →
        (w.lasts s.vastMinColdHours ↔ w.lasts s.vastMinHotHours) := by
  have hset : (isSet s.nodeLatitude = true ∧ isSet s.nodeLongitude = true) ↔
      latitude ≠ .fin 0 ∧ longitude ≠ .fin 0 := by
    rw [hlat, hlon, isSet_some_iff, isSet_some_iff]
  rw [← and_assoc, ← hset]
  constructor
  · rintro ⟨hsched, -, hhot⟩
    refine ⟨localVastSchedule_eq_iff.mp (hsched 0), fun w hw => ?_⟩
    have hboth := hhot w
    rw [mem_hotWindowsOf_localBand_iff, isWindow_iff_lasts] at hboth
    exact (and_congr_right_iff.mp hboth) hw
  · rintro ⟨hcoordinates, hlasts⟩
    refine ⟨fun now => localVastSchedule_eq_iff.mpr hcoordinates, fun w => mem_windows_iff,
      fun w => ?_⟩
    rw [mem_hotWindowsOf_localBand_iff, isWindow_iff_lasts]
    exact and_congr_right (hlasts w)

/-- On the equator there is no schedule; two hot hours make a window where four are
asked for. -/
theorem not_honoursSettings_equator :
    ¬ HonoursSettings ⟨some (.fin 0), some (.fin (-78)), .fin 5, .fin 2, some (.fin 16), .fin 2⟩
      coldThenHot none ∧
    ¬ HonoursSettings ⟨some (.fin 45), some (.fin (-75)), .fin 5, .fin 2, some (.fin 16), .fin 4⟩
      coldThenHot none := by
  constructor
  · intro h
    have hsched := h.schedule 0
    rw [localVastSchedule_eq_none (Or.inl (by decide))] at hsched
    cases hsched
  · intro h
    have hwindow : (⟨2 * oneHour, 4 * oneHour⟩ : Window) ∈ hotWindowsOf coldThenHot (localBand
        ⟨some (.fin 45), some (.fin (-75)), .fin 5, .fin 2, some (.fin 16), .fin 4⟩ none) := by
      decide +kernel
    have hlasts := (isWindow_iff_lasts.mp ((h.hot _).mp hwindow)).2
    have hshort : ¬ (⟨2 * oneHour, 4 * oneHour⟩ : Window).lasts (.fin 4) := by
      unfold Window.lasts
      decide +kernel
    exact hshort hlasts

theorem honoursSettings_northernNode :
    HonoursSettings ⟨some (.fin 45), some (.fin (-75)), .fin 5, .fin 2, none, .fin 2⟩ coldThenHot
      (some ⟨.fin 0, some (.fin 18), none, none⟩) :=
  (honoursSettings_iff _ coldThenHot _ (.fin 45) (.fin (-75)) rfl rfl).mpr
    ⟨by decide, by decide, fun _ _ => Iff.rfl⟩

end HadcdAgent.Vast
