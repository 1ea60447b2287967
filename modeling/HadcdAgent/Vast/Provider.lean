import HadcdAgent.Lib.Run
import HadcdAgent.Lib.Json

/-!
# The Vast.AI provider state machine

`VastProvider` (`agent/vast_provider.py`): `set_override`, `update`, `_do_list`,
`_do_unlist` and `_is_near_window`. The outcomes of the CLI's methods are part of a
tick's input; `none` is a method that raises. Instants are microseconds in UTC.
-/

namespace HadcdAgent.Vast

open Lib

/-! ### Data -/

inductive VastProviderState where
  | unlisted
  | listing
  | listed
  | unlisting
  deriving DecidableEq

/-- `_override`; `other` is any value but `"list"`, `"unlist"` and `None`. -/
inductive Override where
  | none
  | list
  | unlist
  | other
  deriving DecidableEq

/-- What `datetime.fromisoformat` makes of `next_window_start`. A naive stamp is
taken as UTC. -/
inductive IsoStamp where
  | absent
  | invalid
  | naive (t : ℤ)
  | aware (t : ℤ)

/-- The entries of the schedule that `update` reads; `should_list` by its truth. -/
structure Schedule where
  shouldList : Bool
  nextWindowStart : IsoStamp

structure VastProvider where
  enabled : Bool
  preListMicros : ℤ
  state : VastProviderState
  override : Override
  listedAt : Option ℤ
  listingPriceDph : Option PyFloat

/-- The outcomes of one tick. `schedule` is `none` when it is no mapping. -/
structure Tick where
  schedule : Option Schedule
  now : ℤ
  listMachine : Option Bool
  unlistMachine : Option Bool
  activeRentalCount : Option ℤ
  getListingPrice : Option (Option PyFloat)
  stamp : ℤ

inductive CliCall where
  | listMachine (r : Option Bool)
  | unlistMachine (r : Option Bool)
  | activeRentalCount (r : Option ℤ)
  | getListingPrice (r : Option (Option PyFloat))
  deriving DecidableEq

structure Session where
  listedAt : ℤ
  unlistedAt : ℤ
  listingPriceDph : Option PyFloat

/-- The provider after a tick, the CLI calls it made in order, the session it
closed and whether it raised. -/
structure TickResult where
  provider : VastProvider
  calls : List CliCall
  closed : Option Session
  raised : Bool

/-! ### The source -/

def initial (enabled : Bool) (preListMicros : ℤ) : VastProvider :=
  ⟨enabled, preListMicros, .unlisted, .none, none, none⟩

def setOverride (p : VastProvider) (override : Override) : VastProvider :=
  { p with override := override }

def isNearWindow (p : VastProvider) (now : ℤ) : IsoStamp → Bool
  | .absent | .invalid => false
  | .naive t | .aware t => 0 ≤ t - now && t - now ≤ p.preListMicros

/-- `want_listed` after the override. -/
def wantListed (p : VastProvider) (schedule : Schedule) (now : ℤ) : Bool :=
  match p.override with
  | .list => true
  | .unlist => false
  | .none | .other => schedule.shouldList || isNearWindow p now schedule.nextWindowStart

/-- The rest of `_do_list` once `list_machine` has been called. -/
def listed (p : VastProvider) (tick : Tick) : TickResult :=
  match tick.listMachine with
  | none => ⟨p, [.listMachine none], none, true⟩
  | some false => ⟨{ p with state := .unlisted }, [.listMachine (some false)], none, false⟩
  | some true =>
    let p := { p with state := .listed }
    match p.listedAt with
    | some _ => ⟨p, [.listMachine (some true)], none, false⟩
    | none =>
      let p := { p with listedAt := some tick.stamp }
      let calls := [.listMachine (some true), .getListingPrice tick.getListingPrice]
      match tick.getListingPrice with
      | none => ⟨p, calls, none, true⟩
      | some price => ⟨{ p with listingPriceDph := price }, calls, none, false⟩

def doList (p : VastProvider) (tick : Tick) : TickResult := listed { p with state := .listing } tick

def doUnlist (p : VastProvider) (tick : Tick) : TickResult :=
  match tick.unlistMachine with
  | none => ⟨p, [.unlistMachine none], none, true⟩
  | some true => ⟨{ p with state := .unlisting }, [.unlistMachine (some true)], none, false⟩
  | some false => ⟨p, [.unlistMachine (some false)], none, false⟩

def drain (p : VastProvider) (tick : Tick) : TickResult :=
  match tick.activeRentalCount with
  | none => ⟨p, [.activeRentalCount none], none, true⟩
  | some count =>
    if count = 0 then
      ⟨{ p with state := .unlisted, listedAt := none, listingPriceDph := none },
        [.activeRentalCount (some count)],
        p.listedAt.map fun listedAt => ⟨listedAt, tick.stamp, p.listingPriceDph⟩, false⟩
    else ⟨p, [.activeRentalCount (some count)], none, false⟩

/-- Which branch of `update` is taken; `idle true` raises at `schedule.get`. -/
inductive Action where
  | idle (raised : Bool)
  | list
  | unlist
  | drain
  deriving DecidableEq

def action (p : VastProvider) (schedule : Option Schedule) (now : ℤ) : Action :=
  if p.enabled then
    match schedule with
    | none => .idle true
    | some schedule =>
      let want := wantListed p schedule now
      match p.state with
      | .unlisted => if want then .list else .idle false
      | .listed => if want then .idle false else .unlist
      | .unlisting => if want then .list else .drain
      | .listing => .list
  else .idle false

def update (p : VastProvider) (tick : Tick) : TickResult :=
  match action p tick.schedule tick.now with
  | .idle raised => ⟨p, [], none, raised⟩
  | .list => doList p tick
  | .unlist => doUnlist p tick
  | .drain => drain p tick

/-! ### Runs -/

inductive Input where
  | setOverride (override : Override)
  | update (tick : Tick)

def step (p : VastProvider) : Input → VastProvider
  | .setOverride override => setOverride p override
  | .update tick => (update p tick).provider

theorem state_listed (p : VastProvider) (tick : Tick) :
    tick.listMachine = none ∧ (listed p tick).provider.state = p.state ∨
    tick.listMachine = some false ∧ (listed p tick).provider.state = .unlisted ∨
    tick.listMachine = some true ∧ (listed p tick).provider.state = .listed := by
  rw [listed]
  cases tick.listMachine with
  | none => exact Or.inl ⟨rfl, rfl⟩
  | some r =>
    cases r with
    | false => exact Or.inr (Or.inl ⟨rfl, rfl⟩)
    | true =>
      refine Or.inr (Or.inr ⟨rfl, ?_⟩)
      cases p.listedAt <;> cases tick.getListingPrice <;> rfl

theorem not_count_mem_calls_listed (p : VastProvider) (tick : Tick) (r : Option ℤ) :
    CliCall.activeRentalCount r ∉ (listed p tick).calls := by
  rw [listed]
  cases tick.listMachine with
  | none => simp
  | some b =>
    cases b with
    | false => simp
    | true => cases p.listedAt <;> cases tick.getListingPrice <;> simp

/-! ### Leaving UNLISTING -/

/-- The tick re-lists a draining machine and `list_machine` returns `False`. -/
def FailedRelist (p : VastProvider) (tick : Tick) : Prop :=
  p.enabled = true ∧ p.state = .unlisting ∧ tick.listMachine = some false ∧
    ∃ schedule, tick.schedule = some schedule ∧ wantListed p schedule tick.now = true

/-- A tick from UNLISTING to UNLISTED has seen a rental count of zero. -/
def SawNoRentals (p : VastProvider) (tick : Tick) : Prop :=
  p.state = .unlisting → (update p tick).provider.state = .unlisted →
    CliCall.activeRentalCount (some 0) ∈ (update p tick).calls

theorem action_unlisting {p : VastProvider} (hs : p.state = .unlisting)
    (schedule : Option Schedule) (now : ℤ) :
    action p schedule now = .list ↔
      p.enabled = true ∧ ∃ s, schedule = some s ∧ wantListed p s now = true := by
  unfold action
  rw [hs]
  by_cases he : p.enabled = true
  · cases schedule with
    | none => simp [he]
    | some s => by_cases hw : wantListed p s now = true <;> simp [he, hw]
  · simp [he]

theorem failedRelist_iff {p : VastProvider} (hs : p.state = .unlisting) (tick : Tick) :
    FailedRelist p tick ↔
      action p tick.schedule tick.now = .list ∧ tick.listMachine = some false := by
  rw [action_unlisting hs]
  exact ⟨fun h => ⟨⟨h.1, h.2.2.2⟩, h.2.2.1⟩, fun h => ⟨h.1.1, hs, h.2, h.1.2⟩⟩

theorem drain_unlisted {p : VastProvider} (hs : p.state ≠ .unlisted) {tick : Tick}
    (h : (drain p tick).provider.state = .unlisted) :
    CliCall.activeRentalCount (some 0) ∈ (drain p tick).calls := by
  rw [drain] at h ⊢
  cases hc : tick.activeRentalCount with
  | none =>
    rw [hc] at h
    exact absurd h hs
  | some count =>
    rw [hc] at h
    by_cases h0 : count = 0
    · simp [h0]
    · simp only [h0, if_false] at h
      exact absurd h hs

theorem sawNoRentals_iff (p : VastProvider) (tick : Tick) :
    SawNoRentals p tick ↔ ¬ FailedRelist p tick := by
  by_cases hs : p.state = .unlisting
  case neg => exact ⟨fun _ h => hs h.2.1, fun _ h => absurd h hs⟩
  have hne : p.state ≠ .unlisted := by rw [hs]; decide
  rw [failedRelist_iff hs, SawNoRentals, update]
  cases action p tick.schedule tick.now with
  | idle raised => exact ⟨fun _ h => (nomatch h.1), fun _ _ h => absurd h hne⟩
  | unlist =>
    refine ⟨fun _ h => (nomatch h.1), fun _ _ h => ?_⟩
    simp only [doUnlist] at h
    cases hu : tick.unlistMachine with
    | none =>
      rw [hu] at h
      exact absurd h hne
    | some r => cases r <;> rw [hu] at h <;> simp_all
  | drain => exact ⟨fun _ h => (nomatch h.1), fun _ _ h => drain_unlisted hne h⟩
  | list =>
    have hno := not_count_mem_calls_listed { p with state := .listing } tick (some 0)
    rcases state_listed { p with state := .listing } tick with ⟨hl, hst⟩ | ⟨hl, hst⟩ | ⟨hl, hst⟩
    · refine ⟨fun _ h => by simp [hl] at h, fun _ _ h => ?_⟩
      simp only [doList, hst] at h
      cases h
    · exact ⟨fun h => absurd (h hs hst) hno, fun h => absurd ⟨rfl, hl⟩ h⟩
    · refine ⟨fun _ h => by simp [hl] at h, fun _ _ h => ?_⟩
      simp only [doList, hst] at h
      cases h

def DrainsFully (p : VastProvider) : Input → Prop
  | .setOverride _ => True
  | .update tick => SawNoRentals p tick

def NoFailedRelist (p : VastProvider) : Input → Prop
  | .setOverride _ => True
  | .update tick => ¬ FailedRelist p tick

/-- Along every run, each tick that leaves UNLISTING for UNLISTED has seen a
rental count of zero exactly when no tick is a failed re-list. -/
theorem drainsFully_iff (enabled : Bool) (preListMicros : ℤ) (inputs : List Input) :
    Run.Along (Run.total step) DrainsFully (initial enabled preListMicros) inputs ↔
      Run.Along (Run.total step) NoFailedRelist (initial enabled preListMicros) inputs := by
  refine Run.along_iff fun p i => ?_
  cases i with
  | setOverride override => exact Iff.rfl
  | update tick => exact sawNoRentals_iff p tick

def quietTick (shouldList : Bool) (rentals : ℤ) : Tick :=
  ⟨some ⟨shouldList, .absent⟩, 0, some true, some true, some rentals, some none, 0⟩

/-- Listed, unlisted with one renter left, wanted again while `list_machine` fails. -/
theorem not_drainsFully_failedRelist :
    ¬ Run.Along (Run.total step) DrainsFully (initial true 600000000)
      ([.update (quietTick true 0), .update (quietTick false 1), .update (quietTick false 1)] ++
        [.update { quietTick true 1 with listMachine := some false }]) := by
  intro h
  have hlast := h.at rfl
  exact absurd (hlast rfl rfl) (by decide)

end HadcdAgent.Vast
