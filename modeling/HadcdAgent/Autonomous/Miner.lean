import HadcdAgent.Lib.Run
import HadcdAgent.Lib.Json

/-!
# The autonomous mining loop

`AutonomousMiner._loop`, `_heater_service` and `stop` (`agent/autonomous_mode.py`),
cut at the awaits of the loop. What the world answers to an await is an event, and
so are `stop` and a cancellation of the task, which may strike at any await.
-/

namespace HadcdAgent.MiningLoop

open Lib

/-! ### The source -/

/-- The awaits of `_loop`: the thermostat, `turn_off` when demand ends, the two
waits for the stop event, the mining chunk, `turn_on`, the synthetic burn and the
`turn_off` of the `finally` block. -/
inductive Point where
  | created
  | reading
  | turningOff
  | idle
  | mining
  | turningOn
  | holding
  | burning
  | exiting
  | exited
  deriving DecidableEq

inductive Service where
  | turnOn
  | turnOff
  deriving DecidableEq

structure AutonomousMiner where
  haUrl : Str
  haToken : Str
  haHeaterEntityId : Str

def haConfigured (m : AutonomousMiner) : Bool := m.haUrl ≠ [] && m.haToken ≠ [] && m.haHeaterEntityId ≠ []

/-- `acked` is no variable of the loop: it is the last service call that Home
Assistant has acknowledged in this run. -/
structure Loop where
  point : Point
  heaterOn : Bool
  stopEvent : Bool
  acked : Option Service

def initial : Loop := ⟨.created, false, false, none⟩

/-- How a mining handler ends: with a result whose `skipped` has this truth, with
an `Exception`, or with another `BaseException`. -/
inductive Handler where
  | returns (skipped : Bool)
  | raises
  | exits

inductive ChunkResult where
  | dict (skipped : Bool)
  | exception
  | baseException

/-- `_run_gpu` and `_run_cpu`: a handler's error becomes a result without `skipped`. -/
def runShim : Handler → ChunkResult
  | .returns skipped => .dict skipped
  | .raises => .dict false
  | .exits => .baseException

def skipped : ChunkResult → Bool
  | .dict skipped => skipped
  | .exception => true
  | .baseException => false

/-- `demanded`; a read that raises is no demand. -/
def demanded : Option PyFloat → Bool
  | none => false
  | some measuredKw => measuredKw.isPos

inductive Event where
  | resumed
  | read (measuredKw : Option PyFloat)
  | chunkDone (gpu cpu : Handler)
  | answered (acked : Bool)
  | timeout
  | stopSeen
  | burned
  | stop
  | cancel (acked : Bool)

def leave (w : Loop) : Loop := { w with point := if w.heaterOn then .exiting else .exited }

def again (w : Loop) : Loop := if w.stopEvent then leave w else { w with point := .reading }

/-- `_heater_service`: a failed call is logged and swallowed. -/
def heaterService (w : Loop) (service : Service) (acked : Bool) : Loop :=
  if acked then { w with acked := some service } else w

def afterRead (w : Loop) (measuredKw : Option PyFloat) : Loop :=
  { w with
    point := if demanded measuredKw then .mining else if w.heaterOn then .turningOff else .idle }

def afterChunk (m : AutonomousMiner) (w : Loop) (gpu cpu : ChunkResult) : Loop :=
  if skipped gpu && skipped cpu then
    if haConfigured m then { w with point := if w.heaterOn then .holding else .turningOn }
    else { w with point := .burning }
  else again w

def answer (w : Loop) (acked : Bool) : Option Loop :=
  match w.point with
  | .turningOff => some { heaterService w .turnOff acked with heaterOn := false, point := .idle }
  | .turningOn => some { heaterService w .turnOn acked with heaterOn := true, point := .holding }
  | .exiting => some { heaterService w .turnOff acked with point := .exited }
  | _ => none

/-- `CancelledError` at an await; Home Assistant may have acknowledged the call in
flight without the loop having seen it. -/
def cancel (w : Loop) (acked : Bool) : Option Loop :=
  match w.point with
  | .created => some { w with point := .exited }
  | .turningOff => some (leave (heaterService w .turnOff acked))
  | .turningOn => some (leave (heaterService w .turnOn acked))
  | .exiting => some { heaterService w .turnOff acked with point := .exited }
  | .exited => none
  | .reading | .idle | .mining | .holding | .burning => some (leave w)

def waiting : Point → Bool
  | .idle | .holding => true
  | _ => false

def step (m : AutonomousMiner) (w : Loop) : Event → Option Loop
  | .resumed => if w.point = .created then some (again w) else none
  | .read measuredKw => if w.point = .reading then some (afterRead w measuredKw) else none
  | .chunkDone gpu cpu =>
    if w.point = .mining then some (afterChunk m w (runShim gpu) (runShim cpu)) else none
  | .answered acked => answer w acked
  | .timeout => if waiting w.point then some (again w) else none
  | .stopSeen => if waiting w.point && w.stopEvent then some (leave w) else none
  | .burned => if w.point = .burning then some (again w) else none
  | .stop => if w.point = .exited then none else some { w with stopEvent := true }
  | .cancel acked => cancel w acked

/-! ### The heater is not forgotten -/

/-- Idle or exited with a last word `turn_on`, the loop still has the heater on its
mind and an exit to turn it off at. -/
def HeaterSafe (w : Loop) : Prop :=
  w.point = .idle ∨ w.point = .exited → w.acked = some .turnOn →
    w.heaterOn = true ∧ w.point ≠ .exited

/-- No `turn_off` fails while the last word is `turn_on`, and no cancellation hides
the acknowledgement of a `turn_on` or cuts the last `turn_off` short. -/
def Heeded (w : Loop) : Event → Prop
  | .answered acked =>
    acked = false → w.point = .turningOff ∨ w.point = .exiting → w.acked ≠ some .turnOn
  | .cancel acked =>
    (w.point = .turningOn → acked = false) ∧
      (w.point = .exiting → acked = false → w.acked ≠ some .turnOn)
  | _ => True

/-- What `heater_on` is known to be at a point. -/
def FlagAt (heaterOn : Bool) : Point → Prop
  | .created | .idle | .turningOn => heaterOn = false
  | .turningOff | .exiting => heaterOn = true
  | .reading | .mining | .holding | .burning | .exited => True

structure Remembered (w : Loop) : Prop where
  on : w.acked = some .turnOn → w.heaterOn = true ∧ w.point ≠ .exited
  flag : FlagAt w.heaterOn w.point

theorem remembered_initial : Remembered initial := ⟨fun h => (nomatch h), rfl⟩

theorem Remembered.safe {w : Loop} (h : Remembered w) : HeaterSafe w := fun _ => h.on

theorem remembered_leave {w : Loop} (h : w.acked = some .turnOn → w.heaterOn = true) :
    Remembered (leave w) := by
  obtain ⟨point, heaterOn, stopEvent, acked⟩ := w
  cases heaterOn with
  | false => exact ⟨fun ha => (nomatch h ha), trivial⟩
  | true => exact ⟨fun _ => ⟨rfl, fun hp => (nomatch hp)⟩, rfl⟩

theorem remembered_again {w : Loop} (h : w.acked = some .turnOn → w.heaterOn = true) :
    Remembered (again w) := by
  rw [again]
  split_ifs
  · exact remembered_leave h
  · exact ⟨fun ha => ⟨h ha, fun hp => (nomatch hp)⟩, trivial⟩

theorem remembered_afterRead {w : Loop} (h : w.acked = some .turnOn → w.heaterOn = true)
    (measuredKw : Option PyFloat) : Remembered (afterRead w measuredKw) := by
  obtain ⟨point, heaterOn, stopEvent, acked⟩ := w
  rw [afterRead]
  cases demanded measuredKw with
  | true => exact ⟨fun ha => ⟨h ha, fun hp => (nomatch hp)⟩, trivial⟩
  | false =>
    cases heaterOn with
    | false => exact ⟨fun ha => (nomatch h ha), rfl⟩
    | true => exact ⟨fun _ => ⟨rfl, fun hp => (nomatch hp)⟩, rfl⟩

theorem remembered_afterChunk {m : AutonomousMiner} {w : Loop}
    (h : w.acked = some .turnOn → w.heaterOn = true) (gpu cpu : ChunkResult) :
    Remembered (afterChunk m w gpu cpu) := by
  rw [afterChunk]
  by_cases hskip : (skipped gpu && skipped cpu) = true
  · rw [if_pos hskip]
    by_cases hha : haConfigured m = true
    · rw [if_pos hha]
      obtain ⟨point, heaterOn, stopEvent, acked⟩ := w
      cases heaterOn with
      | false => exact ⟨fun ha => (nomatch h ha), rfl⟩
      | true => exact ⟨fun _ => ⟨rfl, fun hp => (nomatch hp)⟩, trivial⟩
    · rw [if_neg hha]
      exact ⟨fun ha => ⟨h ha, fun hp => (nomatch hp)⟩, trivial⟩
  · rw [if_neg hskip]
    exact remembered_again h

theorem acked_heaterService (w : Loop) (service : Service) (acked : Bool) :
    (heaterService w service acked).acked = if acked then some service else w.acked := by
  cases acked <;> rfl

@[simp] theorem heaterOn_heaterService (w : Loop) (service : Service) (acked : Bool) :
    (heaterService w service acked).heaterOn = w.heaterOn := by
  cases acked <;> rfl

theorem acked_ne_turnOn_of_turnOff {w : Loop} {acked : Bool}
    (h : acked = false → w.acked ≠ some .turnOn) :
    (heaterService w .turnOff acked).acked ≠ some .turnOn := by
  rw [acked_heaterService]
  cases acked with
  | false => exact h rfl
  | true => exact fun ha => (nomatch ha)

theorem remembered_answer {w w' : Loop} {acked : Bool} (hg : Heeded w (.answered acked))
    (hw : answer w acked = some w') : Remembered w' := by
  cases hp : w.point <;> simp only [answer, hp, Option.some.injEq, reduceCtorEq] at hw <;> subst hw
  case turningOff =>
    exact ⟨fun ha => absurd ha (acked_ne_turnOn_of_turnOff fun hf => hg hf (.inl hp)), rfl⟩
  case turningOn => exact ⟨fun _ => ⟨rfl, fun hp => (nomatch hp)⟩, trivial⟩
  case exiting =>
    exact ⟨fun ha => absurd ha (acked_ne_turnOn_of_turnOff fun hf => hg hf (.inr hp)), trivial⟩

theorem remembered_cancel {w w' : Loop} {acked : Bool} (h : Remembered w)
    (hg : Heeded w (.cancel acked)) (hw : cancel w acked = some w') : Remembered w' := by
  have hon := fun ha => (h.on ha).1
  have hflag := h.flag
  cases hp : w.point <;> simp only [cancel, hp, Option.some.injEq, reduceCtorEq] at hw <;>
    subst hw <;> rw [hp] at hflag
  case created =>
    refine ⟨fun ha => ?_, trivial⟩
    rw [show w.heaterOn = false from hflag] at hon
    exact nomatch hon ha
  case turningOff => exact remembered_leave fun _ => (heaterOn_heaterService ..).trans hflag
  case turningOn =>
    -- the flag is still down here: only an unacknowledged call may be given up
    rw [hg.1 hp]
    exact remembered_leave hon
  case exiting =>
    exact ⟨fun ha => absurd ha (acked_ne_turnOn_of_turnOff fun hf => hg.2 hp hf), trivial⟩
  all_goals exact remembered_leave hon

theorem remembered_step {m : AutonomousMiner} (w : Loop) (e : Event) (w' : Loop)
    (h : Remembered w) (hg : Heeded w e) (hw : step m w e = some w') : Remembered w' := by
  have hon := fun ha => (h.on ha).1
  cases e with
  | resumed =>
    obtain ⟨-, ⟨⟩⟩ := Option.ite_none_right_eq_some.mp hw
    exact remembered_again hon
  | read measuredKw =>
    obtain ⟨-, ⟨⟩⟩ := Option.ite_none_right_eq_some.mp hw
    exact remembered_afterRead hon measuredKw
  | chunkDone gpu cpu =>
    obtain ⟨-, ⟨⟩⟩ := Option.ite_none_right_eq_some.mp hw
    exact remembered_afterChunk hon (runShim gpu) (runShim cpu)
  | answered acked => exact remembered_answer hg hw
  | timeout =>
    obtain ⟨-, ⟨⟩⟩ := Option.ite_none_right_eq_some.mp hw
    exact remembered_again hon
  | stopSeen =>
    obtain ⟨-, ⟨⟩⟩ := Option.ite_none_right_eq_some.mp hw
    exact remembered_leave hon
  | burned =>
    obtain ⟨-, ⟨⟩⟩ := Option.ite_none_right_eq_some.mp hw
    exact remembered_again hon
  | stop =>
    obtain ⟨-, ⟨⟩⟩ := Option.ite_none_left_eq_some.mp hw
    exact ⟨h.on, h.flag⟩
  | cancel acked => exact remembered_cancel h hg hw

theorem heeded_of_safe {m : AutonomousMiner} (w : Loop) (e : Event) (h : Remembered w)
    (hsafe : ∀ w', step m w e = some w' → HeaterSafe w') : Heeded w e := by
  have hflag := h.flag
  cases e with
  | answered acked =>
    rintro rfl (hp | hp) ha
    · have hs : answer w false = some { w with heaterOn := false, point := .idle } := by
        simp only [answer, hp]
        rfl
      exact nomatch (hsafe _ hs (.inl rfl) ha).1
    · have hs : answer w false = some { w with point := .exited } := by
        simp only [answer, hp]
        rfl
      exact (hsafe _ hs (.inr rfl) ha).2 rfl
  | cancel acked =>
    refine ⟨fun hp => ?_, fun hp hf ha => ?_⟩
    · rw [hp] at hflag
      cases acked with
      | false => rfl
      | true =>
        have hs : cancel w true = some { w with acked := some .turnOn, point := .exited } := by
          simp only [cancel, hp, leave, heaterOn_heaterService, show w.heaterOn = false from hflag]
          rfl
        exact absurd rfl (hsafe _ hs (.inr rfl) rfl).2
    · have hs : cancel w acked = some { w with point := .exited } := by
        simp only [cancel, hp, hf]
        rfl
      exact (hsafe _ hs (.inr rfl) ha).2 rfl
  | _ => trivial

/-- Along every run the heater is safe after each step exactly when the guard is
met before it. -/
theorem heaterSafe_iff (m : AutonomousMiner) (events : List Event) :
    Run.AlongSteps (step m) (fun _ _ w => HeaterSafe w) initial events ↔
      Run.Along (step m) Heeded initial events :=
  Run.alongSteps_iff_guard
    (fun w e w' h hg hw =>
      have h' := remembered_step w e w' h hg hw
      ⟨h', h'.safe⟩)
    heeded_of_safe remembered_initial

/-- Demand, both miners skipped, the heater on, demand over, `turn_off` fails. -/
theorem not_heaterSafe_failedTurnOff :
    ¬ Run.AlongSteps (step ⟨"http://ha", "token", "switch.heater"⟩) (fun _ _ w => HeaterSafe w)
      initial ([.resumed, .read (some (.fin 2)), .chunkDone (.returns true) (.returns true),
        .answered true, .timeout, .read (some (.fin 0))] ++ [.answered false]) := by
  intro h
  have hlast := h.at rfl _ rfl
  exact nomatch (hlast (.inl rfl) rfl).1

end HadcdAgent.MiningLoop
