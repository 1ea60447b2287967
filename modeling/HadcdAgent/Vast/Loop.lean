import HadcdAgent.Vast.Override

/-!
# The Vast.AI loop and the rental callback

`Agent._vast_loop` (`agent/agent.py`) awaits `VastProvider.update` in a worker
thread. The closing branch of `update` schedules the rental callback on the event
loop of the thread it runs in.
-/

namespace HadcdAgent.Vast

open Lib

/-! ### The source -/

inductive Thread where
  | eventLoop
  | worker
  deriving DecidableEq

/-- `asyncio.get_event_loop()` returns; a thread that has set no loop gets a
`RuntimeError`. -/
def getsEventLoop : Thread → Bool
  | .eventLoop => true
  | .worker => false

/-- The arguments of `_rental_cb`. -/
structure RentalCall where
  machineId : Str
  listedAt : ℤ
  unlistedAt : ℤ
  listingPriceDph : Option PyFloat
  deriving DecidableEq

def rentalCall (machineId : Str) (s : Session) : RentalCall :=
  ⟨machineId, s.listedAt, s.unlistedAt, s.listingPriceDph⟩

/-- The callbacks that `update` schedules when it closes a session. -/
def scheduledCalls (thread : Thread) (callback : Bool) (machineId : Str) :
    Option Session → List RentalCall
  | none => []
  | some s => if callback && getsEventLoop thread then [rentalCall machineId s] else []

structure LoopSettings where
  vastCheckIntervalSec : ℚ
  vastWeatherRefreshSec : ℚ
  machineId : Str

/-- `localScheduleAge` is `none` for infinity. `rows` are the sessions written to
the payout log, `scheduled` the calls of the callback put on the event loop; the
loop ends at an exception of `update`. -/
structure VastLoop where
  provider : VastProvider
  rentalCallback : Bool
  localSchedule : Option Schedule
  localScheduleAge : Option ℚ
  rows : List Session
  scheduled : List RentalCall
  ended : Bool

/-- One pass of the loop: `backend` is `none` when the request fails or yields
`null`, and `some none` a body that is no object; `localFetch` is the result of
`_local_vast_schedule`, should it be called. -/
structure Pass where
  backend : Option (Option Schedule)
  localFetch : Option Schedule
  tick : Tick

def beginLoop (preListMicros : ℤ) : VastLoop :=
  ⟨initial true preListMicros, true, none, none, [], [], false⟩

def refreshDue (s : LoopSettings) (l : VastLoop) : Bool :=
  l.localSchedule.isNone ||
    (l.localScheduleAge.map fun age => age + s.vastCheckIntervalSec).all (s.vastWeatherRefreshSec ≤ ·)

/-- The schedule handed to `update`, if any, and the cached one with its age. -/
def chooseSchedule (s : LoopSettings) (l : VastLoop) (pass : Pass) :
    VastLoop × Option (Option Schedule) :=
  match pass.backend with
  | some schedule => (l, some schedule)
  | none =>
    let l := if refreshDue s l then
        { l with localSchedule := pass.localFetch, localScheduleAge := some 0 }
      else
        { l with localScheduleAge := l.localScheduleAge.map (· + s.vastCheckIntervalSec) }
    (l, l.localSchedule.map some)

def runUpdate (s : LoopSettings) (thread : Thread) (l : VastLoop) (tick : Tick) : VastLoop :=
  let r := update l.provider tick
  { l with
    provider := r.provider
    rows := l.rows ++ r.closed.toList
    scheduled := l.scheduled ++ scheduledCalls thread l.rentalCallback s.machineId r.closed
    ended := r.raised }

def vastPass (s : LoopSettings) (l : VastLoop) (pass : Pass) : VastLoop :=
  let chosen := chooseSchedule s l pass
  match chosen.2 with
  | none => chosen.1
  | some schedule => runUpdate s .worker chosen.1 { pass.tick with schedule := schedule }

inductive LoopInput where
  | setOverride (override : Override)
  | pass (p : Pass)

def loopStep (s : LoopSettings) (l : VastLoop) : LoopInput → Option VastLoop
  | .setOverride override => some { l with provider := setOverride l.provider override }
  | .pass p => if l.ended then none else some (vastPass s l p)

/-! ### Which tick closes a session -/

/-- A recorded session whose rentals have drained. -/
def ClosesSession (p : VastProvider) (tick : Tick) : Prop :=
  p.enabled = true ∧ p.state = .unlisting ∧ Wants p tick false ∧
    tick.activeRentalCount = some 0 ∧ p.listedAt ≠ none

theorem action_eq_drain {p : VastProvider} {tick : Tick} :
    action p tick.schedule tick.now = .drain ↔
      p.enabled = true ∧ p.state = .unlisting ∧ Wants p tick false := by
  unfold action Wants
  by_cases he : p.enabled = true
  case neg => simp [he]
  rw [if_pos he]
  cases tick.schedule with
  | none => simp
  | some s => cases hw : wantListed p s tick.now <;> cases p.state <;> simp [hw, he]

theorem closed_eq_none_iff (p : VastProvider) (tick : Tick) :
    (update p tick).closed = none ↔ ¬ ClosesSession p tick := by
  by_cases ha : action p tick.schedule tick.now = .drain
  · have hd := action_eq_drain.mp ha
    unfold update ClosesSession
    simp only [ha, drain]
    cases hc : tick.activeRentalCount with
    | none => simp
    | some count => by_cases h0 : count = 0 <;> simp [h0, hd]
  · have hnone : (update p tick).closed = none := by
      cases hc : (update p tick).closed with
      | none => rfl
      | some s => exact absurd (action_of_closed hc) ha
    have hno : ¬ ClosesSession p tick := fun h => ha (action_eq_drain.mpr ⟨h.1, h.2.1, h.2.2.1⟩)
    exact iff_of_true hnone hno

/-! ### What is posted -/

/-- The calls scheduled in the pass are one for each session it closes. -/
def PostsRentals (s : LoopSettings) (l : VastLoop) : LoopInput → Prop
  | .setOverride _ => True
  | .pass p => ∃ closed, (vastPass s l p).rows = l.rows ++ closed ∧
      (vastPass s l p).scheduled = l.scheduled ++ closed.map (rentalCall s.machineId)

def KeepsSession (s : LoopSettings) (l : VastLoop) : LoopInput → Prop
  | .setOverride _ => True
  | .pass p => ∀ schedule, (chooseSchedule s l p).2 = some schedule →
      ¬ ClosesSession l.provider { p.tick with schedule := schedule }

theorem scheduledCalls_eventLoop (machineId : Str) (closed : Option Session) :
    scheduledCalls .eventLoop true machineId closed = closed.toList.map (rentalCall machineId) := by
  cases closed <;> rfl

theorem scheduledCalls_worker (callback : Bool) (machineId : Str) (closed : Option Session) :
    scheduledCalls .worker callback machineId closed = [] := by
  cases closed with
  | none => rfl
  | some s => cases callback <;> rfl

theorem chooseSchedule_frame (s : LoopSettings) (l : VastLoop) (pass : Pass) :
    (chooseSchedule s l pass).1.provider = l.provider ∧
    (chooseSchedule s l pass).1.rows = l.rows ∧
    (chooseSchedule s l pass).1.scheduled = l.scheduled := by
  unfold chooseSchedule
  cases pass.backend with
  | some schedule => exact ⟨rfl, rfl, rfl⟩
  | none => by_cases h : refreshDue s l = true <;> simp [h]

theorem scheduled_vastPass (s : LoopSettings) (l : VastLoop) (pass : Pass) :
    (vastPass s l pass).scheduled = l.scheduled := by
  obtain ⟨-, -, hscheduled⟩ := chooseSchedule_frame s l pass
  cases hc : (chooseSchedule s l pass).2 with
  | none => simp only [vastPass, hc, hscheduled]
  | some schedule =>
    simp only [vastPass, hc, runUpdate, scheduledCalls_worker, List.append_nil, hscheduled]

def closedBy (s : LoopSettings) (l : VastLoop) (pass : Pass) : List Session :=
  match (chooseSchedule s l pass).2 with
  | none => []
  | some schedule =>
    (update l.provider { pass.tick with schedule := schedule }).closed.toList

theorem rows_vastPass (s : LoopSettings) (l : VastLoop) (pass : Pass) :
    (vastPass s l pass).rows = l.rows ++ closedBy s l pass := by
  obtain ⟨hprovider, hrows, -⟩ := chooseSchedule_frame s l pass
  cases hc : (chooseSchedule s l pass).2 with
  | none => simp only [vastPass, closedBy, hc, hrows, List.append_nil]
  | some schedule => simp only [vastPass, closedBy, hc, runUpdate, hprovider, hrows]

theorem closedBy_eq_nil (s : LoopSettings) (l : VastLoop) (pass : Pass) :
    closedBy s l pass = [] ↔ KeepsSession s l (.pass pass) := by
  unfold closedBy
  simp only [KeepsSession]
  cases (chooseSchedule s l pass).2 with
  | none => simp
  | some schedule => simp [← closed_eq_none_iff]

theorem postsRentals_iff (s : LoopSettings) (l : VastLoop) (i : LoopInput) :
    PostsRentals s l i ↔ KeepsSession s l i := by
  cases i with
  | setOverride override => exact Iff.rfl
  | pass p =>
    rw [← closedBy_eq_nil]
    simp only [PostsRentals, scheduled_vastPass, rows_vastPass]
    constructor
    · rintro ⟨closed, hrows, hscheduled⟩
      have hclosed : closed = [] := by simpa using hscheduled
      rw [List.append_cancel_left hrows, hclosed]
    · intro h
      exact ⟨[], by rw [h], by simp⟩

/-- In every run of the loop each closed session is posted exactly when no session
is closed. -/
theorem rentals_posted_iff (s : LoopSettings) (preListMicros : ℤ) (inputs : List LoopInput) :
    Run.Along (loopStep s) (PostsRentals s) (beginLoop preListMicros) inputs ↔
      Run.Along (loopStep s) (KeepsSession s) (beginLoop preListMicros) inputs :=
  Run.along_iff (postsRentals_iff s)

def shippedLoop : LoopSettings := ⟨60, 3600, "4711"⟩

def passOf (tick : Tick) : LoopInput := .pass ⟨some tick.schedule, none, tick⟩

theorem rental_not_posted :
    ¬ Run.Along (loopStep shippedLoop) (PostsRentals shippedLoop) (beginLoop 600000000)
      ([passOf (quietTick true 0), passOf (quietTick false 0)] ++
        [passOf (quietTick false 0)]) := by
  intro h
  have hlast := h.at rfl
  rw [postsRentals_iff] at hlast
  refine hlast (some ⟨false, .absent⟩) rfl ⟨rfl, rfl, ⟨_, rfl, rfl⟩, rfl, ?_⟩
  decide

end HadcdAgent.Vast
