import HadcdAgent.Lib.Run
import HadcdAgent.HeatSource.Ecobee
import HadcdAgent.HeatSource.HomeAssistant

/-!
# The contract of the four heat sources

`_demand_loop` (`agent/agent.py`) reads the configured source outside any `try`: a
read has to return, and with a zero demand on an error or an undocumented answer.
-/

namespace HadcdAgent.HeatSource

open Lib

inductive Adapter where
  | file
  | http
  | ecobee
  | homeAssistant

namespace Adapter

abbrev State : Adapter → Type
  | file => FileHeatSource
  | http => HttpHeatSource
  | ecobee => EcobeeHeatSource
  | homeAssistant => HomeAssistantHeatSource

abbrev Answer : Adapter → Type
  | file => BmsFile
  | http => HttpAnswer
  | ecobee => EcobeeInput
  | homeAssistant => HttpAnswer

def read (py : Numbers) : (a : Adapter) → a.State → a.Answer →
    a.State × Except PyExc HeatReading
  | file, s, answer => FileHeatSource.read s answer
  | http, s, answer => HttpHeatSource.read s answer
  | ecobee, s, answer => EcobeeHeatSource.read py s answer
  | homeAssistant, s, answer => HomeAssistantHeatSource.read py s answer

/-- The answer is an error or not of the documented shape. -/
def Bad : (a : Adapter) → a.State → a.Answer → Prop
  | file, _, answer => answer.shape = false
  | http, _, answer => answer.hasShape bmsShape = false
  | ecobee, s, answer => answer.Bad s
  | homeAssistant, _, answer => answer.hasShape entityShape = false

/-- The answers that a read copes with. -/
def Fits (py : Numbers) : (a : Adapter) → a.State → a.Answer → Prop
  | file, _, answer => answer.Fits
  | http, _, answer => answer.Fits BmsFits
  | ecobee, s, answer => answer.Fits py s
  | homeAssistant, s, answer => answer.Fits (EntityFits s)

def step (py : Numbers) (a : Adapter) : a.State → a.Answer → Option a.State :=
  Run.total fun s answer => (a.read py s answer).1

theorem meets_iff (py : Numbers) (a : Adapter) (s : a.State) (answer : a.Answer) :
    Meets (a.Bad s answer) (a.read py s answer).2 ↔ a.Fits py s answer := by
  cases a with
  | file => exact file_meets_iff s answer
  | http => exact http_meets_iff s answer
  | ecobee => exact ecobee_meets_iff py s answer
  | homeAssistant => exact homeAssistant_meets_iff py s answer

/-- From every state and along every run, all reads of an adapter meet the contract
exactly when all answers fit. -/
theorem reads_meet_iff (py : Numbers) (a : Adapter) (s : a.State) (answers : List a.Answer) :
    Run.Along (a.step py) (fun s answer => Meets (a.Bad s answer) (a.read py s answer).2) s
        answers ↔
      Run.Along (a.step py) (a.Fits py) s answers :=
  Run.along_iff (meets_iff py a)

/-- A BMS file whose bytes are no UTF-8. -/
theorem not_reads_meet_notUtf8 :
    ¬ Run.Along (file.step ⟨fun _ => none, id, id⟩)
      (fun s answer => Meets (file.Bad s answer) (file.read ⟨fun _ => none, id, id⟩ s answer).2)
      ⟨1800, false, false⟩ [.text .notUtf8] :=
  fun h => not_meets_error _ _ h.1

end Adapter
end HadcdAgent.HeatSource
