import HadcdAgent.Heartbeat.Offline

/-!
# A vacant room across restarts

`_heat_override_active` lives in the process, the last `heat_override` received
does not: a restart forgets the one and leaves the other.
-/

namespace HadcdAgent.Heartbeat

open Lib HeatOverride Autonomous

/-- `vacant`: the last `heat_override` received was `"setback"`, in this process or
an earlier one. `heard`: this process has handled a response. -/
structure Remembered where
  agent : Agent
  vacant : Bool
  heard : Bool

def rememberTick (s : Settings) (m : Remembered) (t : Tick) : Remembered where
  agent := (heartbeat s m.agent t).agent
  vacant := ((received t.post).map fun b => b.heat.setback).getD m.vacant
  heard := m.heard || (received t.post).isSome

def remember (s : Settings) (m : Remembered) (i : Input) : Option Remembered :=
  (step s m.agent i).map fun agent =>
    match i with
    | .tick t => rememberTick s m t
    | .minerEnds => { m with agent := agent }
    | .restart => { m with agent := agent, heard := false }

def rememberStart (heat : Node) (env : EnvFiles) : Remembered := ⟨start heat env, false, false⟩

/-- The miner is not started while the last override received is the setback. -/
def SparesVacant (s : Settings) (m : Remembered) : Input → Prop
  | .tick t => m.agent.ended = false → (heartbeat s m.agent t).minerStarted = true →
      (rememberTick s m t).vacant = false
  | .minerEnds | .restart => True

/-- The fallback falls due: the POST has failed, nobody rents, the miner is idle and
the threshold has passed. -/
def FallsDue (s : Settings) (a : Agent) (t : Tick) : Prop :=
  hbOk t.post = false ∧ vastRenting t.provider = false ∧ a.minerActive = false ∧
    s.autonomousFallbackAfter ≤ t.now' - a.offlineSince.getD t.now

/-- A process that has handled no response yet does not let the fallback fall due
on a node last told that its room is vacant. -/
def HeardBeforeDue (s : Settings) (m : Remembered) : Input → Prop
  | .tick t => m.agent.ended = false → FallsDue s m.agent t → m.vacant = true → m.heard = true
  | .minerEnds | .restart => True

/-- The flag of the process is the last override received, once one has been. -/
def FlagHeard (m : Remembered) : Prop := m.agent.heat.overrideActive = (m.heard && m.vacant)

theorem overrideActive_heartbeat (s : Settings) (a : Agent) (t : Tick) :
    (heartbeat s a t).agent.heat.overrideActive =
      ((received t.post).map fun b => b.heat.setback).getD a.heat.overrideActive := by
  rw [← overrideActive_handleResponse s.setbackTempC a t]
  exact heartbeat_keeps (fun a => a.heat.overrideActive) (fun _ _ _ _ => rfl) s a t

theorem overrideActive_restart {n n' : Node} (h : HeatOverride.restart n = some n') :
    n'.overrideActive = false := by
  unfold HeatOverride.restart at h
  split at h
  · cases h
    rfl
  · cases h

theorem flagHeard_remember (s : Settings) {m m' : Remembered} (h : FlagHeard m) (i : Input)
    (hstep : remember s m i = some m') : FlagHeard m' := by
  unfold remember at hstep
  cases i with
  | tick t =>
    by_cases hend : m.agent.ended = true
    · simp [step, hend] at hstep
    simp only [step, hend, Bool.false_eq_true, if_false, Option.map_some, Option.some.injEq] at hstep
    rw [← hstep]
    unfold FlagHeard
    simp only [rememberTick, overrideActive_heartbeat]
    cases received t.post with
    | none => simpa [FlagHeard] using h
    | some b => simp
  | minerEnds =>
    cases hstep
    exact h
  | restart =>
    simp only [step, restart] at hstep
    cases hr : HeatOverride.restart m.agent.heat with
    | none => simp [hr] at hstep
    | some heat =>
      simp only [hr, Option.map_some, Option.some.injEq] at hstep
      rw [← hstep]
      simpa [FlagHeard] using overrideActive_restart hr

theorem sparesVacant_iff (s : Settings) {m : Remembered} (h : FlagHeard m) (i : Input) :
    SparesVacant s m i ↔ HeardBeforeDue s m i := by
  cases i with
  | minerEnds => exact Iff.rfl
  | restart => exact Iff.rfl
  | tick t =>
    simp only [SparesVacant, HeardBeforeDue, minerStarted_iff]
    refine imp_congr_right fun _ => ?_
    have hsame : hbOk t.post = false → (rememberTick s m t).vacant = m.vacant := by
      intro hoff
      cases hr : received t.post with
      | none => simp [rememberTick, hr]
      | some b =>
        rw [hbOk_of_received hr] at hoff
        cases hoff
    have hflag : m.agent.heat.overrideActive = false ↔ (m.vacant = true → m.heard = false) := by
      rw [h]
      cases m.heard <;> cases m.vacant <;> simp
    constructor
    · rintro hspares ⟨hoff, hrent, hidle, hafter⟩ hvacant
      by_contra hheard
      have hact := hflag.mpr fun _ => Bool.eq_false_iff.mpr hheard
      have hno := hspares ⟨hoff, hrent, hafter, hidle, hact⟩
      rw [hsame hoff, hvacant] at hno
      cases hno
    · rintro hheard ⟨hoff, hrent, hafter, hidle, hact⟩
      rw [hsame hoff, Bool.eq_false_iff]
      intro hvacant
      have hyes := hheard ⟨hoff, hrent, hidle, hafter⟩ hvacant
      rw [hflag.mp hact hvacant] at hyes
      cases hyes

/-- In every run, restarts included, the fallback spares a vacant room exactly when
it never falls due in a process that has not yet heard from the dispatcher on a node
whose room was last reported vacant. -/
theorem vacant_room_iff (s : Settings) (heat : Node) (env : EnvFiles) (inputs : List Input) :
    Run.Along (remember s) (SparesVacant s) (rememberStart heat env) inputs ↔
      Run.Along (remember s) (HeardBeforeDue s) (rememberStart heat env) inputs :=
  Run.along_congr (fun _ i _ h hstep => flagHeard_remember s h i hstep)
    (fun _ i h => sparesVacant_iff s h i) rfl

/-- The room is reported vacant, the agent restarts, and the dispatcher stays away
for a minute: the miner heats the room. -/
theorem vacant_room_heated :
    ¬ Run.Along (remember shipped) (SparesVacant shipped) (rememberStart plainStart ⟨none, none⟩)
      ([.tick (tickAt (.status 200 (some (plainBody true))) 0), .restart,
        .tick (tickAt .raised 10)] ++ [.tick (tickAt .raised 70)]) := by
  intro h
  have hlast := h.at rfl
  exact absurd (hlast rfl rfl) (by decide)

end HadcdAgent.Heartbeat
