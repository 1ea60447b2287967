import HadcdAgent.HeatOverride

/-!
# A way back for the thermostat

`Agent._apply_heat_override` (`agent/agent.py`) over runs in which each read, write and
save may fail, the agent restarts and somebody turns the thermostat. Beside the node a
run keeps the setpoint that the room itself was last given, and the one it had when it
became vacant.
-/

namespace HadcdAgent.HeatOverride

open Lib AgentState

/-! ### One handled response -/

/-- The temperature that the response has `set_setpoint` called with. -/
def attempt (default : PyFloat) (n : Node) (r : Response) : Option PyFloat :=
  if r.setback = n.overrideActive then none
  else if r.setback then some (r.setbackTempC.getD default)
  else n.state.savedSetpointC

/-- The node when a setback temperature is written. -/
def atSetback (n : Node) (o : Outcomes) : Node := capture { n with overrideActive := true } o

section Response

variable {default : PyFloat} {n : Node} {r : Response} {o : Outcomes} {x : PyFloat}

theorem apply_of_same (h : r.setback = n.overrideActive) : applyHeatOverride default n r o = n :=
  if_pos h

theorem apply_of_setback (hr : r.setback = true) (ha : n.overrideActive = false) :
    applyHeatOverride default n r o =
      setSetpoint (atSetback n o) (r.setbackTempC.getD default) o.write := by
  rw [applyHeatOverride, hr, if_neg (by rw [ha]; decide)]
  rfl

theorem apply_of_cleared (hr : r.setback = false) (ha : n.overrideActive = true) :
    applyHeatOverride default n r o = restore { n with overrideActive := false } o := by
  rw [applyHeatOverride, hr, if_neg (by rw [ha]; decide)]
  rfl

theorem capture_of_some (h : n.state.savedSetpointC = some x) : capture n o = n := by
  unfold capture
  rw [h]

theorem capture_of_works (h : n.state.savedSetpointC = none) (hr : o.read = .works) :
    capture n o = persist (setSaved n (some n.thermostat)) o.saved := by
  unfold capture
  rw [h, hr]

theorem capture_of_not_works (h : n.state.savedSetpointC = none) (hr : o.read ≠ .works) :
    capture n o = n := by
  unfold capture
  rw [h]
  cases hread : o.read with
  | works => exact absurd hread hr
  | _ => rfl

theorem restore_of_raises (hw : o.write = .raises) : restore n o = n := by
  unfold restore
  cases n.state.savedSetpointC with
  | none => rfl
  | some saved => simp only [hw]

theorem restore_of_returns (h : n.state.savedSetpointC = some x) (hw : o.write ≠ .raises) :
    restore n o = persist (setSaved (setSetpoint n x o.write) none) o.saved := by
  unfold restore
  rw [h]
  cases hwrite : o.write with
  | raises => exact absurd hwrite hw
  | _ => simp only

theorem setSetpoint_state (n : Node) (x : PyFloat) (write : WriteOutcome) :
    (setSetpoint n x write).state = n.state ∧ (setSetpoint n x write).file = n.file ∧
    (setSetpoint n x write).overrideActive = n.overrideActive := by
  cases write <;> exact ⟨rfl, rfl, rfl⟩

theorem persist_frame (n : Node) (written : Bool) :
    (persist n written).state = n.state ∧ (persist n written).thermostat = n.thermostat ∧
    (persist n written).overrideActive = n.overrideActive := by
  unfold persist
  split <;> exact ⟨rfl, rfl, rfl⟩

theorem persist_false (n : Node) : persist n false = n := by
  have hno : n.state.save false = none := by
    unfold save
    split <;> rfl
  rw [persist, hno]

theorem capture_frame (n : Node) (o : Outcomes) :
    (capture n o).thermostat = n.thermostat ∧ (capture n o).overrideActive = n.overrideActive := by
  cases hs : n.state.savedSetpointC with
  | some x =>
    rw [capture_of_some hs]
    exact ⟨rfl, rfl⟩
  | none =>
    by_cases hr : o.read = .works
    · rw [capture_of_works hs hr]
      exact (persist_frame _ _).2
    · rw [capture_of_not_works hs hr]
      exact ⟨rfl, rfl⟩

theorem memory_atSetback_of_some (o : Outcomes) (h : n.state.savedSetpointC = some x) :
    (atSetback n o).state.savedSetpointC = some x := by
  rw [atSetback, capture_of_some (n := { n with overrideActive := true }) h]
  exact h

theorem memory_atSetback_of_works (h : n.state.savedSetpointC = none) (hr : o.read = .works) :
    (atSetback n o).state.savedSetpointC = some n.thermostat := by
  rw [atSetback, capture_of_works (n := { n with overrideActive := true }) h hr,
    (persist_frame _ _).1]
  rfl

theorem attempt_of_same (h : r.setback = n.overrideActive) : attempt default n r = none := if_pos h

theorem attempt_of_setback (hr : r.setback = true) (ha : n.overrideActive = false) :
    attempt default n r = some (r.setbackTempC.getD default) := by
  rw [attempt, hr, if_neg (by rw [ha]; decide), if_pos rfl]

theorem attempt_of_cleared (hr : r.setback = false) (ha : n.overrideActive = true) :
    attempt default n r = n.state.savedSetpointC := by
  rw [attempt, hr, if_neg (by rw [ha]; decide), if_neg (by decide)]

theorem thermostat_setSetpoint (n : Node) (x : PyFloat) (write : WriteOutcome) :
    (setSetpoint n x write).thermostat = if write = .accepted then x else n.thermostat := by
  cases write <;> rfl

theorem thermostat_restore (n : Node) (o : Outcomes) :
    (restore n o).thermostat =
      if o.write = .accepted then n.state.savedSetpointC.getD n.thermostat else n.thermostat := by
  cases hs : n.state.savedSetpointC with
  | none =>
    unfold restore
    rw [hs]
    exact (ite_self _).symm
  | some x =>
    by_cases hw : o.write = .raises
    · rw [restore_of_raises hw, hw]
      rfl
    · rw [restore_of_returns hs hw, (persist_frame _ _).2.1]
      exact thermostat_setSetpoint n x o.write

/-- The thermostat changes only by an accepted write. -/
theorem thermostat_apply (default : PyFloat) (n : Node) (r : Response) (o : Outcomes) :
    (applyHeatOverride default n r o).thermostat =
      if o.write = .accepted then (attempt default n r).getD n.thermostat else n.thermostat := by
  by_cases hsame : r.setback = n.overrideActive
  · rw [apply_of_same hsame, attempt_of_same hsame, Option.getD_none, ite_self]
  · cases hr : r.setback with
    | true =>
      have ha : n.overrideActive = false := by simpa [hr] using hsame
      rw [apply_of_setback hr ha, attempt_of_setback hr ha, thermostat_setSetpoint, atSetback,
        (capture_frame _ o).1, Option.getD_some]
    | false =>
      have ha : n.overrideActive = true := by simpa [hr] using hsame
      rw [apply_of_cleared hr ha, attempt_of_cleared hr ha, thermostat_restore]

end Response

/-! ### Runs -/

inductive RoomEvent where
  | response (r : Response) (o : Outcomes)
  | restart
  | turned (x : PyFloat)

/-- `vacant` is what the last handled response says. `own` is the last setpoint that is
not a setback temperature of the agent's; `before` is what that was when the room became
vacant. -/
structure Room where
  node : Node
  vacant : Bool
  own : PyFloat
  before : PyFloat

def vacancySetpoint (m : Room) (r : Response) : PyFloat :=
  if r.setback && !m.vacant then m.own else m.before

def respond (default : PyFloat) (m : Room) (r : Response) (o : Outcomes) : Room where
  node := applyHeatOverride default m.node r o
  vacant := r.setback
  own :=
    if r.setback = false ∧ o.write = .accepted then (attempt default m.node r).getD m.own else m.own
  before := vacancySetpoint m r

def turn (m : Room) (x : PyFloat) : Room :=
  { m with node := { m.node with thermostat := x }, own := x }

/-- A source that does not support writes answers each with `False`. -/
def roomStep (default : PyFloat) (writable : Bool) (m : Room) : RoomEvent → Option Room
  | .response r o =>
    if writable = true ∨ o.write = .rejected then some (respond default m r o) else none
  | .restart => (restart m.node).map fun node => { m with node := node }
  | .turned x => some (turn m x)

def roomStart (nodeId nodeToken : Str) (models : List Str) (setpoint : PyFloat) : Room :=
  ⟨start nodeId nodeToken models setpoint, false, setpoint, setpoint⟩

/-- `saved_setpoint_c` of the state file. -/
def fileSetpoint (file : StateFile) : Option PyFloat :=
  match new.load file with
  | .ok (_, state) => state.savedSetpointC
  | .error _ => none

structure Remembers (n : Node) (x : PyFloat) : Prop where
  memory : n.state.savedSetpointC = some x
  disk : fileSetpoint n.file = some x

/-- When a setback temperature is written, the setpoint from before the vacancy is
remembered. -/
def WayBack (default : PyFloat) (writable : Bool) (m : Room) : RoomEvent → Prop
  | .response r o => writable = true → r.setback = true → (attempt default m.node r).isSome →
      Remembers (atSetback m.node o) (vacancySetpoint m r)
  | .restart | .turned _ => True

/-- What a response needs from its calls, and from the process that handles it. -/
structure Careful (m : Room) (r : Response) (o : Outcomes) : Prop where
  captured : r.setback = true → m.node.overrideActive = false →
    m.node.state.savedSetpointC = none → o.read = .works ∧ o.saved = true
  seen : r.setback = false → m.node.overrideActive = false → m.node.state.savedSetpointC = none
  restored : r.setback = false → m.node.overrideActive = true →
    m.node.state.savedSetpointC ≠ none →
    o.saved = true ∧ (o.write = .accepted ∨ o.write = .rejected ∧ m.node.thermostat = m.own)

instance (m : Room) (r : Response) (o : Outcomes) : Decidable (Careful m r o) :=
  decidable_of_iff
    ((r.setback = true → m.node.overrideActive = false → m.node.state.savedSetpointC = none →
        o.read = .works ∧ o.saved = true) ∧
      (r.setback = false → m.node.overrideActive = false →
        m.node.state.savedSetpointC = none) ∧
      (r.setback = false → m.node.overrideActive = true → m.node.state.savedSetpointC ≠ none →
        o.saved = true ∧ (o.write = .accepted ∨ o.write = .rejected ∧ m.node.thermostat = m.own)))
    ⟨fun h => ⟨h.1, h.2.1, h.2.2⟩, fun h => ⟨h.captured, h.seen, h.restored⟩⟩

def KeepsWayBack (writable : Bool) (m : Room) : RoomEvent → Prop
  | .response r o => writable = true → Careful m r o
  | .restart | .turned _ => True

instance (writable : Bool) : ∀ m e, Decidable (KeepsWayBack writable m e)
  | m, .response r o => inferInstanceAs (Decidable (writable = true → Careful m r o))
  | _, .restart | _, .turned _ => instDecidableTrue

/-! ### The invariant -/

/-- The state is on disk. An occupied room has its own setpoint and nothing is
remembered; of a vacant one the setpoint from before is. -/
structure Safe (m : Room) : Prop where
  onDisk : m.node.state.save true = some m.node.file
  occupied : m.vacant = false → m.node.overrideActive = false ∧
    m.node.state.savedSetpointC = none ∧ m.node.thermostat = m.own
  vacant : m.vacant = true → m.node.state.savedSetpointC = some m.before

theorem safe_start (nodeId nodeToken : Str) (models : List Str) (setpoint : PyFloat) :
    Safe (roomStart nodeId nodeToken models setpoint) where
  onDisk := rfl
  occupied := fun _ => ⟨rfl, rfl, rfl⟩
  vacant := fun h => by cases h

theorem fileSetpoint_of_save {n : Node} (h : n.state.save true = some n.file) :
    fileSetpoint n.file = n.state.savedSetpointC := by
  unfold fileSetpoint
  rw [load_save h]

theorem restart_of_load {n : Node} {state : AgentState} (h : new.load n.file = .ok (true, state)) :
    restart n = some { n with overrideActive := false, state := state } := by
  unfold restart
  rw [h]

section Safe

variable {default : PyFloat} {m : Room} {r : Response} {o : Outcomes}

theorem Safe.vacant_of_active (h : Safe m) (ha : m.node.overrideActive = true) :
    m.vacant = true := by
  by_contra hv
  rw [Bool.not_eq_true] at hv
  rw [(h.occupied hv).1] at ha
  cases ha

theorem Safe.occupied_of_none (h : Safe m) (hs : m.node.state.savedSetpointC = none) :
    m.vacant = false := by
  by_contra hv
  rw [Bool.not_eq_false] at hv
  rw [h.vacant hv] at hs
  cases hs

theorem Safe.remembers (h : Safe m) (hr : r.setback = true)
    (hc : m.node.state.savedSetpointC = none → o.read = .works ∧ o.saved = true) :
    (atSetback m.node o).state.save true = some (atSetback m.node o).file ∧
    Remembers (atSetback m.node o) (vacancySetpoint m r) := by
  have hkeep : (atSetback m.node o).state.save true = some (atSetback m.node o).file ∧
      (atSetback m.node o).state.savedSetpointC = some (vacancySetpoint m r) := by
    unfold atSetback vacancySetpoint
    rw [hr]
    cases hv : m.vacant with
    | true =>
      have hs := h.vacant hv
      rw [capture_of_some (n := { m.node with overrideActive := true }) hs]
      exact ⟨h.onDisk, hs⟩
    | false =>
      obtain ⟨-, hs, ht⟩ := h.occupied hv
      obtain ⟨hread, hsaved⟩ := hc hs
      rw [capture_of_works (n := { m.node with overrideActive := true }) hs hread, hsaved]
      obtain ⟨hdisk, hsp, -, -⟩ := persist_setSaved
        (n := { m.node with overrideActive := true }) h.onDisk (some m.node.thermostat)
      rw [← ht]
      exact ⟨hdisk, hsp⟩
  exact ⟨hkeep.1, hkeep.2, (fileSetpoint_of_save hkeep.1).trans hkeep.2⟩

theorem Safe.respond_setback (h : Safe m) (hr : r.setback = true) (hc : Careful m r o) :
    Safe (respond default m r o) := by
  cases ha : m.node.overrideActive with
  | true =>
    have hv := h.vacant_of_active ha
    have hsame : applyHeatOverride default m.node r o = m.node := apply_of_same (hr.trans ha.symm)
    refine ⟨?_, ?_, ?_⟩
    · rw [respond, hsame]
      exact h.onDisk
    · intro hno
      rw [respond, hr] at hno
      cases hno
    · intro _
      rw [respond, hsame, vacancySetpoint, hv, Bool.not_true, Bool.and_false]
      exact h.vacant hv
  | false =>
    obtain ⟨hdisk, hremembers⟩ := h.remembers hr (hc.captured hr ha)
    have happly : applyHeatOverride default m.node r o =
        setSetpoint (atSetback m.node o) (r.setbackTempC.getD default) o.write :=
      apply_of_setback hr ha
    obtain ⟨hstate, hfile, -⟩ :=
      setSetpoint_state (atSetback m.node o) (r.setbackTempC.getD default) o.write
    refine ⟨?_, ?_, ?_⟩
    · rw [respond, happly, hstate, hfile]
      exact hdisk
    · intro hno
      rw [respond, hr] at hno
      cases hno
    · intro _
      rw [respond, happly, hstate]
      exact hremembers.memory

theorem restore_spec (hdisk : m.node.state.save true = some m.node.file) {x : PyFloat}
    (hs : m.node.state.savedSetpointC = some x) (hw : o.write ≠ .raises) :
    (restore { m.node with overrideActive := false } o).overrideActive = false ∧
    (restore { m.node with overrideActive := false } o).state.savedSetpointC = none ∧
    (o.saved = true → (restore { m.node with overrideActive := false } o).state.save true =
      some (restore { m.node with overrideActive := false } o).file) := by
  rw [restore_of_returns (n := { m.node with overrideActive := false }) hs hw]
  obtain ⟨hstate, hfile, hactive⟩ :=
    setSetpoint_state { m.node with overrideActive := false } x o.write
  refine ⟨?_, ?_, ?_⟩
  · rw [(persist_frame _ _).2.2]
    exact hactive
  · rw [(persist_frame _ _).1]
    rfl
  · intro hsaved
    rw [hsaved]
    exact (persist_setSaved (by rw [hstate, hfile]; exact hdisk) none).1

theorem Safe.respond_cleared (h : Safe m) (hr : r.setback = false) (hc : Careful m r o) :
    Safe (respond default m r o) := by
  cases ha : m.node.overrideActive with
  | false =>
    have hs := hc.seen hr ha
    have hv := h.occupied_of_none hs
    have hsame : r.setback = m.node.overrideActive := hr.trans ha.symm
    refine ⟨?_, ?_, ?_⟩
    · rw [respond, apply_of_same hsame]
      exact h.onDisk
    · intro _
      rw [respond, apply_of_same hsame, attempt_of_same hsame, Option.getD_none, ite_self]
      exact h.occupied hv
    · intro hyes
      rw [respond, hr] at hyes
      cases hyes
  | true =>
    have hs := h.vacant (h.vacant_of_active ha)
    obtain ⟨hsaved, hwrite⟩ := hc.restored hr ha (by rw [hs]; simp)
    have hreturns : o.write ≠ .raises := by
      rcases hwrite with hw | ⟨hw, -⟩
      · rw [hw]; decide
      · rw [hw]; decide
    obtain ⟨hactive, hnone, hdisk⟩ := restore_spec h.onDisk hs hreturns
    have happly : applyHeatOverride default m.node r o =
        restore { m.node with overrideActive := false } o := apply_of_cleared hr ha
    have hattempt : attempt default m.node r = some m.before := (attempt_of_cleared hr ha).trans hs
    refine ⟨?_, ?_, ?_⟩
    · rw [respond, happly]
      exact hdisk hsaved
    · intro _
      refine ⟨by rw [respond, happly]; exact hactive, by rw [respond, happly]; exact hnone, ?_⟩
      change (applyHeatOverride default m.node r o).thermostat = _
      rw [thermostat_apply, respond, hattempt, hr]
      rcases hwrite with hw | ⟨hw, ht⟩
      · simp [hw]
      · simp [hw, ht]
    · intro hyes
      rw [respond, hr] at hyes
      cases hyes

theorem safe_roomStep (m : Room) (e : RoomEvent) (t : Room) (h : Safe m)
    (hg : KeepsWayBack true m e) (ht : roomStep default true m e = some t) : Safe t := by
  cases e with
  | response r o =>
    cases ht
    cases hr : r.setback with
    | true => exact h.respond_setback hr (hg rfl)
    | false => exact h.respond_cleared hr (hg rfl)
  | restart =>
    obtain ⟨node, hnode, rfl⟩ := Option.map_eq_some_iff.mp ht
    rw [restart_of_load (load_save h.onDisk)] at hnode
    cases hnode
    exact ⟨h.onDisk, fun hv => ⟨rfl, (h.occupied hv).2⟩, h.vacant⟩
  | turned x =>
    cases ht
    exact ⟨h.onDisk, fun hv => ⟨(h.occupied hv).1, (h.occupied hv).2.1, rfl⟩, h.vacant⟩

theorem wayBack_of_safe (m : Room) (e : RoomEvent) (h : Safe m) (hg : KeepsWayBack true m e) :
    WayBack default true m e := by
  cases e with
  | restart => trivial
  | turned x => trivial
  | response r o =>
    intro _ hr hattempt
    cases ha : m.node.overrideActive with
    | true =>
      rw [attempt_of_same (hr.trans ha.symm)] at hattempt
      cases hattempt
    | false => exact (h.remembers hr ((hg rfl).captured hr ha)).2

end Safe

/-! ### What breaks the condition can lose the way back -/

/-- However the run goes on, each setback temperature has a way back. -/
def Unbreakable (default : PyFloat) (m : Room) : Prop :=
  ∀ events, Run.Along (roomStep default true) (WayBack default true) m events

section Unbreakable

variable {default : PyFloat} {m t : Room} {r : Response} {o : Outcomes} {x : PyFloat}

theorem Unbreakable.step (h : Unbreakable default m) {e : RoomEvent}
    (ht : roomStep default true m e = some t) : Unbreakable default t :=
  fun events => (h (e :: events)).2 t ht

theorem remembers_of_wayBack (hp : WayBack default true m (.response r o))
    (hr : r.setback = true) (ha : m.node.overrideActive = false) :
    Remembers (atSetback m.node o) (vacancySetpoint m r) := by
  refine hp rfl hr ?_
  rw [attempt_of_setback hr ha]
  rfl

def vacate : Response := ⟨true, none⟩

/-- The thermostat is left at a setback temperature. -/
theorem not_unbreakable_of_forgotten (hv : m.vacant = false) (ha : m.node.overrideActive = false)
    (hs : m.node.state.savedSetpointC = none) (ht : m.node.thermostat ≠ m.own) :
    ¬ Unbreakable default m := by
  intro h
  have hmemory := (remembers_of_wayBack (h [.response vacate works]).1 rfl ha).memory
  rw [memory_atSetback_of_works hs rfl, vacancySetpoint, hv] at hmemory
  exact ht (Option.some.inj hmemory)

theorem exists_ne_setpoint (x : PyFloat) : ∃ y : PyFloat, x ≠ y := by
  by_cases hx : x = .nan
  · exact ⟨.inf, by rw [hx]; decide⟩
  · exact ⟨.nan, hx⟩

/-- A setpoint of an earlier vacancy is remembered. -/
theorem not_unbreakable_of_stale (hv : m.vacant = false) (ha : m.node.overrideActive = false)
    (hs : m.node.state.savedSetpointC = some x) : ¬ Unbreakable default m := by
  intro h
  obtain ⟨y, hy⟩ := exists_ne_setpoint x
  have hturned : Unbreakable default (turn m y) := h.step (e := .turned y) rfl
  have hmemory := (remembers_of_wayBack (hturned [.response vacate works]).1 rfl ha).memory
  rw [memory_atSetback_of_some works (n := (turn m y).node) hs, vacancySetpoint, turn, hv] at hmemory
  exact hy (Option.some.inj hmemory)

theorem captured_of_wayBack (hsafe : Safe m) (hp : WayBack default true m (.response r o))
    (hr : r.setback = true) (ha : m.node.overrideActive = false)
    (hs : m.node.state.savedSetpointC = none) : o.read = .works ∧ o.saved = true := by
  have hway := remembers_of_wayBack hp hr ha
  have hread : o.read = .works := by
    by_contra hno
    have hmemory := hway.memory
    rw [atSetback, capture_of_not_works (n := { m.node with overrideActive := true }) hs hno]
      at hmemory
    rw [hs] at hmemory
    cases hmemory
  refine ⟨hread, ?_⟩
  by_contra hno
  rw [Bool.not_eq_true] at hno
  have hdisk := hway.disk
  rw [atSetback, capture_of_works (n := { m.node with overrideActive := true }) hs hread, hno,
    persist_false] at hdisk
  change fileSetpoint m.node.file = _ at hdisk
  rw [fileSetpoint_of_save hsafe.onDisk, hs] at hdisk
  cases hdisk

theorem seen_of_unbreakable (hr : r.setback = false) (ha : m.node.overrideActive = false)
    (h : Unbreakable default (respond default m r o)) : m.node.state.savedSetpointC = none := by
  cases hs : m.node.state.savedSetpointC with
  | none => rfl
  | some x =>
    have hsame : applyHeatOverride default m.node r o = m.node := apply_of_same (hr.trans ha.symm)
    refine absurd h (not_unbreakable_of_stale (x := x) hr ?_ ?_)
    · rw [respond, hsame]
      exact ha
    · rw [respond, hsame]
      exact hs

theorem restored_of_unbreakable (hsafe : Safe m) (hr : r.setback = false)
    (ha : m.node.overrideActive = true) (h : Unbreakable default (respond default m r o)) :
    o.saved = true ∧ (o.write = .accepted ∨ o.write = .rejected ∧ m.node.thermostat = m.own) := by
  have hs := hsafe.vacant (hsafe.vacant_of_active ha)
  have happly : applyHeatOverride default m.node r o =
      restore { m.node with overrideActive := false } o := apply_of_cleared hr ha
  by_cases hw : o.write = .raises
  · -- the setpoint stays remembered, and the next vacancy takes it for its own
    refine absurd h (not_unbreakable_of_stale (x := m.before) hr ?_ ?_)
    · rw [respond, happly, restore_of_raises hw]
    · rw [respond, happly, restore_of_raises hw]
      exact hs
  obtain ⟨hactive, hnone, -⟩ := restore_spec hsafe.onDisk hs hw
  have hsaved : o.saved = true := by
    by_contra hno
    rw [Bool.not_eq_true] at hno
    -- the file has the setpoint still, and a restart brings it back
    have hfile : (respond default m r o).node.file = m.node.file := by
      rw [respond, happly, restore_of_returns (n := { m.node with overrideActive := false }) hs hw,
        hno, persist_false]
      exact (setSetpoint_state _ _ _).2.1
    have hload : new.load (respond default m r o).node.file = .ok (true, m.node.state) := by
      rw [hfile]
      exact load_save hsafe.onDisk
    have hrestart : roomStep default true (respond default m r o) .restart =
        some { respond default m r o with
          node := { (respond default m r o).node with
            overrideActive := false, state := m.node.state } } := by
      change (restart (respond default m r o).node).map _ = _
      rw [restart_of_load hload]
      rfl
    exact absurd (h.step hrestart) (not_unbreakable_of_stale (x := m.before) hr rfl hs)
  refine ⟨hsaved, ?_⟩
  by_cases haccepted : o.write = .accepted
  · exact Or.inl haccepted
  have hrejected : o.write = .rejected := by
    cases hwrite : o.write with
    | accepted => exact absurd hwrite haccepted
    | rejected => rfl
    | raises => exact absurd hwrite hw
  refine Or.inr ⟨hrejected, ?_⟩
  by_contra hlow
  refine not_unbreakable_of_forgotten (m := respond default m r o) hr ?_ ?_ ?_ h
  · rw [respond, happly]
    exact hactive
  · rw [respond, happly]
    exact hnone
  · change (applyHeatOverride default m.node r o).thermostat ≠ _
    rw [thermostat_apply, respond, if_neg haccepted]
    simpa [hrejected] using hlow

theorem careful_of_forall (hsafe : Safe m) (h : ∀ rest, Run.Along (roomStep default true)
    (WayBack default true) m (.response r o :: rest)) : Careful m r o := by
  have hafter : Unbreakable default (respond default m r o) :=
    fun rest => (h rest).2 (respond default m r o) rfl
  exact ⟨fun hr ha hs => captured_of_wayBack hsafe (h []).1 hr ha hs,
    fun hr ha => seen_of_unbreakable hr ha hafter,
    fun hr ha _ => restored_of_unbreakable hsafe hr ha hafter⟩

end Unbreakable

/-- In every run that keeps the way back, a setback temperature is written only while
memory and the state file have the setpoint from before the vacancy; after such a run,
a step that does not keep it can be gone on from to one that is written without. -/
theorem wayBack_of_keepsWayBack (default : PyFloat) (writable : Bool) (nodeId nodeToken : Str)
    (models : List Str) (setpoint : PyFloat) {events : List RoomEvent}
    (hg : Run.Along (roomStep default writable) (KeepsWayBack writable)
      (roomStart nodeId nodeToken models setpoint) events) :
    Run.Along (roomStep default writable) (WayBack default writable)
        (roomStart nodeId nodeToken models setpoint) events ∧
      ∀ m e, Run.exec (roomStep default writable)
          (roomStart nodeId nodeToken models setpoint) events = some m →
        ¬ KeepsWayBack writable m e →
        ∃ rest, ¬ Run.Along (roomStep default writable) (WayBack default writable) m (e :: rest) := by
  cases writable with
  | false =>
    have htrivial : ∀ m e, WayBack default false m e := by
      intro m e
      cases e with
      | response r o => exact fun h => by cases h
      | _ => trivial
    refine ⟨hg.mono fun m e _ => htrivial m e, ?_⟩
    intro m e _ hno
    refine absurd ?_ hno
    cases e with
    | response r o => exact fun h => by cases h
    | _ => trivial
  | true =>
    have hstart := safe_start nodeId nodeToken models setpoint
    refine ⟨Run.along_of_invariant safe_roomStep (fun m e h hk => wayBack_of_safe m e h hk)
      hstart hg, ?_⟩
    intro m e hm hno
    have hsafe : Safe m := Run.exec_invariant safe_roomStep hstart hg hm
    by_contra hall
    push Not at hall
    refine hno ?_
    cases e with
    | response r o => exact fun _ => careful_of_forall hsafe hall
    | restart => trivial
    | turned x => trivial

/-- A vacancy with a restart in it; then somebody turns the thermostat, and the room
becomes vacant again. -/
def twoVacancies : List RoomEvent :=
  [.response vacate works, .restart, .response vacate works, .response ⟨false, none⟩ works,
    .turned (.fin 19), .response vacate works]

theorem wayBack_twoVacancies :
    Run.Along (roomStep (.fin 16) true) (WayBack (.fin 16) true)
      (roomStart "n".toList "t".toList [] (.fin 21)) twoVacancies :=
  (wayBack_of_keepsWayBack (.fin 16) true "n".toList "t".toList [] (.fin 21) (by decide +kernel)).1

/-- The thermostat cannot be read when the room becomes vacant. -/
theorem not_wayBack_unread :
    ¬ Run.Along (roomStep (.fin 16) true) (WayBack (.fin 16) true)
      (roomStart "n".toList "t".toList [] (.fin 21))
      [.response vacate ⟨.raises, .accepted, true⟩] := by
  intro h
  exact absurd (h.1 rfl rfl rfl).memory (by decide)

end HadcdAgent.HeatOverride
