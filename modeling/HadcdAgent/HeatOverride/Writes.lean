import HadcdAgent.HeatOverride.WayBack

/-!
# Thermostat writes that fail

`Agent._apply_heat_override` (`agent/agent.py`) acts once, when the override changes.
Beside the node a run keeps, for either override, the last write that returned `False`
and was not attempted again.
-/

namespace HadcdAgent.HeatOverride

open Lib AgentState

structure Tracked where
  node : Node
  failed : Bool → Option PyFloat

def failedAfter (default : PyFloat) (m : Tracked) (r : Response) (o : Outcomes) :
    Bool → Option PyFloat :=
  match attempt default m.node r, o.write with
  | some x, .rejected => Function.update m.failed r.setback (some x)
  | some _, .accepted => Function.update m.failed r.setback none
  | some _, .raises | none, _ => m.failed

def trackedStep (default : PyFloat) (m : Tracked) : RoomEvent → Option Tracked
  | .response r o => some ⟨applyHeatOverride default m.node r o, failedAfter default m r o⟩
  | .restart => (restart m.node).map fun node => { m with node := node }
  | .turned x => some { m with node := { m.node with thermostat := x } }

def trackedStart (n : Node) : Tracked := ⟨n, fun _ => none⟩

/-- A setpoint is discarded only after it was written, and a write that failed is
attempted again. -/
structure NotForgotten (default : PyFloat) (m : Tracked) (r : Response) (o : Outcomes) : Prop where
  discarded : ∀ x, m.node.state.savedSetpointC = some x →
    (applyHeatOverride default m.node r o).state.savedSetpointC ≠ some x →
    attempt default m.node r = some x ∧ o.write = .accepted
  retried : ∀ x, m.failed r.setback = some x →
    attempt default m.node r = some (if r.setback then r.setbackTempC.getD default else x)

def RemembersWrites (default : PyFloat) (m : Tracked) : RoomEvent → Prop
  | .response r o => NotForgotten default m r o
  | .restart | .turned _ => True

/-- No restoring write returns `False`, and none did that the setback began with. -/
structure Heeded (m : Tracked) (r : Response) (o : Outcomes) : Prop where
  restored : r.setback = false → m.node.overrideActive = true →
    m.node.state.savedSetpointC ≠ none → o.write ≠ .rejected
  lowered : r.setback = true → m.node.overrideActive = true → m.failed true = none

def HeedsWrites (m : Tracked) : RoomEvent → Prop
  | .response r o => Heeded m r o
  | .restart | .turned _ => True

section Step

variable {default : PyFloat} {m : Tracked} {r : Response} {o : Outcomes}

theorem saved_of_setback (hr : r.setback = true) (ha : m.node.overrideActive = false) {x : PyFloat}
    (hs : m.node.state.savedSetpointC = some x) :
    (applyHeatOverride default m.node r o).state.savedSetpointC = some x := by
  rw [apply_of_setback hr ha, (setSetpoint_state _ _ _).1]
  exact memory_atSetback_of_some o hs

theorem discarded_of_heeded (h : Heeded m r o) {x : PyFloat}
    (hs : m.node.state.savedSetpointC = some x)
    (hgone : (applyHeatOverride default m.node r o).state.savedSetpointC ≠ some x) :
    attempt default m.node r = some x ∧ o.write = .accepted := by
  by_cases hsame : r.setback = m.node.overrideActive
  · rw [apply_of_same hsame] at hgone
    exact absurd hs hgone
  · cases hr : r.setback with
    | true =>
      have ha : m.node.overrideActive = false := by simpa [hr] using hsame
      exact absurd (saved_of_setback hr ha hs) hgone
    | false =>
      have ha : m.node.overrideActive = true := by simpa [hr] using hsame
      refine ⟨(attempt_of_cleared hr ha).trans hs, ?_⟩
      cases hw : o.write with
      | accepted => rfl
      | rejected => exact absurd hw (h.restored hr ha (by rw [hs]; simp))
      | raises =>
        rw [apply_of_cleared hr ha, restore_of_raises hw] at hgone
        exact absurd hs hgone

theorem notForgotten_of_heeded (hf : m.failed false = none) (h : Heeded m r o) :
    NotForgotten default m r o := by
  refine ⟨fun x hs hgone => discarded_of_heeded h hs hgone, ?_⟩
  intro x hx
  cases hr : r.setback with
  | false =>
    rw [hr, hf] at hx
    cases hx
  | true =>
    cases ha : m.node.overrideActive with
    | true =>
      rw [hr, h.lowered hr ha] at hx
      cases hx
    | false => exact attempt_of_setback hr ha

theorem heeded_of_notForgotten (h : NotForgotten default m r o) : Heeded m r o := by
  constructor
  · intro hr ha hs hw
    obtain ⟨x, hx⟩ := Option.ne_none_iff_exists'.mp hs
    have hgone : (applyHeatOverride default m.node r o).state.savedSetpointC ≠ some x := by
      rw [apply_of_cleared hr ha, restore_of_returns (n := { m.node with overrideActive := false })
        hx (by rw [hw]; decide), (persist_frame _ _).1]
      simp [setSaved]
    have haccepted := (h.discarded x hx hgone).2
    rw [hw] at haccepted
    cases haccepted
  · intro hr ha
    cases hx : m.failed true with
    | none => rfl
    | some x =>
      have hattempt := h.retried x (by rw [hr]; exact hx)
      rw [attempt_of_same (hr.trans ha.symm)] at hattempt
      cases hattempt

theorem failedAfter_of_heeded (hf : m.failed false = none) (h : Heeded m r o) :
    failedAfter default m r o false = none := by
  cases hattempt : attempt default m.node r with
  | none =>
    simp only [failedAfter, hattempt]
    exact hf
  | some x =>
    cases hw : o.write with
    | raises =>
      simp only [failedAfter, hattempt, hw]
      exact hf
    | accepted =>
      simp only [failedAfter, hattempt, hw]
      cases hr : r.setback with
      | true =>
        rw [Function.update_of_ne (by decide)]
        exact hf
      | false => rw [Function.update_self]
    | rejected =>
      simp only [failedAfter, hattempt, hw]
      cases hr : r.setback with
      | true =>
        rw [Function.update_of_ne (by decide)]
        exact hf
      | false =>
        have ha : m.node.overrideActive = true := by
          by_contra hno
          rw [Bool.not_eq_true] at hno
          rw [attempt_of_same (hr.trans hno.symm)] at hattempt
          cases hattempt
        rw [attempt_of_cleared hr ha] at hattempt
        exact absurd hw (h.restored hr ha (by rw [hattempt]; simp))

end Step

/-- In every run no failed write is forgotten exactly when no restoring write returns
`False` and no setback response comes after one whose write did. -/
theorem remembersWrites_iff (default : PyFloat) (n : Node) (events : List RoomEvent) :
    Run.AlongSteps (trackedStep default) (fun m e _ => RemembersWrites default m e)
        (trackedStart n) events ↔
      Run.Along (trackedStep default) HeedsWrites (trackedStart n) events := by
  have hkeep : ∀ m e t, m.failed false = none → HeedsWrites m e →
      trackedStep default m e = some t → t.failed false = none ∧ RemembersWrites default m e := by
    intro m e t hf hg ht
    cases e with
    | response r o =>
      cases ht
      exact ⟨failedAfter_of_heeded hf hg, notForgotten_of_heeded hf hg⟩
    | restart =>
      obtain ⟨node, -, rfl⟩ := Option.map_eq_some_iff.mp ht
      exact ⟨hf, trivial⟩
    | turned x =>
      cases ht
      exact ⟨hf, trivial⟩
  have hback : ∀ m e, m.failed false = none →
      (∀ t, trackedStep default m e = some t → RemembersWrites default m e) → HeedsWrites m e := by
    intro m e _ hstep
    cases e with
    | response r o => exact heeded_of_notForgotten (hstep _ rfl)
    | restart => trivial
    | turned x => trivial
  exact Run.alongSteps_iff_guard hkeep hback rfl

/-- The restoring write returns `False`. -/
theorem not_remembersWrites_restore :
    ¬ Run.AlongSteps (trackedStep (.fin 16)) (fun m e _ => RemembersWrites (.fin 16) m e)
      (trackedStart (start "n".toList "t".toList [] (.fin 21)))
      ([.response vacate works] ++ [.response ⟨false, none⟩ ⟨.works, .rejected, true⟩]) := by
  intro h
  have hlast : NotForgotten _ _ _ _ := h.at rfl _ rfl
  exact absurd (hlast.discarded (.fin 21) rfl (by decide)).2 (by decide)

end HadcdAgent.HeatOverride
