import HadcdAgent.Vast.Provider

/-!
# The operator's override

What the CLI calls of a tick say about the listing decision, and the transient
LISTING state. `Returns` is a tick in which no CLI method raises.
-/

namespace HadcdAgent.Vast

open Lib

/-! ### The decision behind a call -/

structure Returns (tick : Tick) : Prop where
  list : tick.listMachine ≠ none
  unlist : tick.unlistMachine ≠ none
  count : tick.activeRentalCount ≠ none
  price : tick.getListingPrice ≠ none

instance (tick : Tick) : Decidable (Returns tick) :=
  decidable_of_iff (tick.listMachine ≠ none ∧ tick.unlistMachine ≠ none ∧
      tick.activeRentalCount ≠ none ∧ tick.getListingPrice ≠ none)
    ⟨fun h => ⟨h.1, h.2.1, h.2.2.1, h.2.2.2⟩, fun h => ⟨h.1, h.2, h.3, h.4⟩⟩

/-- `want_listed` of the tick is this truth value. -/
def Wants (p : VastProvider) (tick : Tick) (want : Bool) : Prop :=
  ∃ schedule, tick.schedule = some schedule ∧ wantListed p schedule tick.now = want

theorem wants_of_action {p : VastProvider} (hs : p.state ≠ .listing) (tick : Tick) :
    (action p tick.schedule tick.now = .list → Wants p tick true) ∧
    (action p tick.schedule tick.now = .unlist → p.state = .listed ∧ Wants p tick false) ∧
    (action p tick.schedule tick.now = .drain → p.state = .unlisting ∧ Wants p tick false) := by
  unfold action Wants
  by_cases he : p.enabled = true
  case neg => simp [he]
  rw [if_pos he]
  cases hsch : tick.schedule with
  | none => simp
  | some s =>
    cases hp : p.state with
    | listing => exact absurd hp hs
    | unlisted => cases hw : wantListed p s tick.now <;> simp [hw]
    | listed => cases hw : wantListed p s tick.now <;> simp [hw]
    | unlisting => cases hw : wantListed p s tick.now <;> simp [hw]

theorem wantListed_unlist {p : VastProvider} (h : p.override = .unlist) (s : Schedule) (now : ℤ) :
    wantListed p s now = false := by
  unfold wantListed
  rw [h]

theorem wantListed_list {p : VastProvider} (h : p.override = .list) (s : Schedule) (now : ℤ) :
    wantListed p s now = true := by
  unfold wantListed
  rw [h]

/-! ### The calls of each branch -/

theorem calls_doList (p : VastProvider) (tick : Tick) :
    ∀ c ∈ (doList p tick).calls, (∃ r, c = .listMachine r) ∨ ∃ r, c = .getListingPrice r := by
  simp only [doList, listed]
  cases tick.listMachine with
  | none => simp
  | some r =>
    cases r with
    | false => simp
    | true => cases p.listedAt <;> cases tick.getListingPrice <;> simp

theorem calls_doUnlist (p : VastProvider) (tick : Tick) :
    (doUnlist p tick).calls = [.unlistMachine tick.unlistMachine] := by
  unfold doUnlist
  cases tick.unlistMachine with
  | none => rfl
  | some r => cases r <;> rfl

theorem calls_drain (p : VastProvider) (tick : Tick) :
    (drain p tick).calls = [.activeRentalCount tick.activeRentalCount] := by
  unfold drain
  cases tick.activeRentalCount with
  | none => rfl
  | some count => by_cases h0 : count = 0 <;> simp [h0]

theorem closed_doList (p : VastProvider) (tick : Tick) : (doList p tick).closed = none := by
  simp only [doList, listed]
  cases tick.listMachine with
  | none => rfl
  | some r =>
    cases r with
    | false => rfl
    | true => cases p.listedAt <;> cases tick.getListingPrice <;> rfl

theorem closed_doUnlist (p : VastProvider) (tick : Tick) : (doUnlist p tick).closed = none := by
  unfold doUnlist
  cases tick.unlistMachine with
  | none => rfl
  | some r => cases r <;> rfl

theorem action_of_call (p : VastProvider) (tick : Tick) :
    (∀ r, CliCall.listMachine r ∈ (update p tick).calls →
      action p tick.schedule tick.now = .list) ∧
    (∀ r, CliCall.unlistMachine r ∈ (update p tick).calls →
      action p tick.schedule tick.now = .unlist) ∧
    (∀ r, CliCall.activeRentalCount r ∈ (update p tick).calls →
      action p tick.schedule tick.now = .drain) := by
  unfold update
  cases action p tick.schedule tick.now with
  | idle raised => simp
  | list =>
    have hcalls := calls_doList p tick
    refine ⟨fun _ _ => rfl, fun r hr => ?_, fun r hr => ?_⟩
    · have := hcalls _ hr
      simp at this
    · have := hcalls _ hr
      simp at this
  | unlist => simp [calls_doUnlist]
  | drain => simp [calls_drain]

theorem action_of_closed {p : VastProvider} {tick : Tick} {s : Session}
    (h : (update p tick).closed = some s) : action p tick.schedule tick.now = .drain := by
  unfold update at h
  cases ha : action p tick.schedule tick.now with
  | idle raised => rw [ha] at h; cases h
  | list => rw [ha] at h; simp [closed_doList] at h
  | unlist => rw [ha] at h; simp [closed_doUnlist] at h
  | drain => rfl

/-! ### LISTING is left in the tick that enters it -/

theorem state_doList {p : VastProvider} {tick : Tick} (h : tick.listMachine ≠ none) :
    (doList p tick).provider.state = .unlisted ∨ (doList p tick).provider.state = .listed := by
  rcases state_listed { p with state := .listing } tick with ⟨hl, -⟩ | ⟨-, hs⟩ | ⟨-, hs⟩
  · exact absurd hl h
  · exact Or.inl hs
  · exact Or.inr hs

theorem state_doUnlist (p : VastProvider) (tick : Tick) :
    (doUnlist p tick).provider.state = p.state ∨
      (doUnlist p tick).provider.state = .unlisting := by
  unfold doUnlist
  cases tick.unlistMachine with
  | none => exact Or.inl rfl
  | some r => cases r with
    | false => exact Or.inl rfl
    | true => exact Or.inr rfl

theorem state_drain (p : VastProvider) (tick : Tick) :
    (drain p tick).provider.state = p.state ∨ (drain p tick).provider.state = .unlisted := by
  unfold drain
  cases tick.activeRentalCount with
  | none => exact Or.inl rfl
  | some count =>
    by_cases h0 : count = 0
    · exact Or.inr (by simp [h0])
    · exact Or.inl (by simp [h0])

theorem state_update_ne_listing {p : VastProvider} {tick : Tick} (h : tick.listMachine ≠ none)
    (hs : p.state ≠ .listing) : (update p tick).provider.state ≠ .listing := by
  unfold update
  cases action p tick.schedule tick.now with
  | idle raised => exact hs
  | list => rcases state_doList (p := p) h with hst | hst <;> simp [hst]
  | unlist => rcases state_doUnlist p tick with hst | hst <;> simp [hst, hs]
  | drain => rcases state_drain p tick with hst | hst <;> simp [hst, hs]

/-! ### The operator's word -/

def Input.asked (last : Override) : Input → Override
  | .setOverride override => override
  | .update _ => last

/-- The argument of the last `set_override`. -/
def asked (inputs : List Input) : Override := inputs.foldl Input.asked .none

theorem override_update (p : VastProvider) (tick : Tick) :
    (update p tick).provider.override = p.override := by
  unfold update
  cases action p tick.schedule tick.now with
  | idle raised => rfl
  | list =>
    simp only [doList, listed]
    cases tick.listMachine with
    | none => rfl
    | some r =>
      cases r with
      | false => rfl
      | true => cases p.listedAt <;> cases tick.getListingPrice <;> rfl
  | unlist =>
    simp only [doUnlist]
    cases tick.unlistMachine with
    | none => rfl
    | some r => cases r <;> rfl
  | drain =>
    simp only [drain]
    cases tick.activeRentalCount with
    | none => rfl
    | some count => by_cases h0 : count = 0 <;> simp [h0]

theorem override_exec {inputs : List Input} {p q : VastProvider}
    (h : Run.exec (Run.total step) p inputs = some q) :
    q.override = inputs.foldl Input.asked p.override := by
  induction inputs generalizing p with
  | nil =>
    cases h
    rfl
  | cons i inputs ih =>
    obtain ⟨u, hstep, hu⟩ := Run.exec_cons_eq_some h
    cases hstep
    rw [ih hu, List.foldl_cons]
    cases i with
    | setOverride override => rfl
    | update tick =>
      have hsame : (step p (.update tick)).override = p.override := override_update p tick
      rw [hsame]
      rfl

/-! ### Along a run -/

/-- The CLI calls of a tick follow `want_listed`, and with it what the operator has asked for. -/
structure FollowsOverride (p : VastProvider) (asked : Override) (tick : Tick) : Prop where
  override : p.override = asked
  notListing : p.state ≠ .listing
  list : ∀ r, CliCall.listMachine r ∈ (update p tick).calls → Wants p tick true
  unlist : ∀ r, CliCall.unlistMachine r ∈ (update p tick).calls → Wants p tick false
  count : ∀ r, CliCall.activeRentalCount r ∈ (update p tick).calls → Wants p tick false
  forcedOff : asked = .unlist → ∀ r, CliCall.listMachine r ∉ (update p tick).calls
  forcedOn : asked = .list →
    (∀ r, CliCall.unlistMachine r ∉ (update p tick).calls) ∧ (update p tick).closed = none

theorem not_wants_of_unlist {p : VastProvider} (h : p.override = .unlist) (tick : Tick) :
    ¬ Wants p tick true := by
  rintro ⟨s, -, hw⟩
  rw [wantListed_unlist h] at hw
  cases hw

theorem not_wants_of_list {p : VastProvider} (h : p.override = .list) (tick : Tick) :
    ¬ Wants p tick false := by
  rintro ⟨s, -, hw⟩
  rw [wantListed_list h] at hw
  cases hw

theorem followsOverride {p : VastProvider} (hs : p.state ≠ .listing) {asked : Override}
    (hasked : p.override = asked) (tick : Tick) : FollowsOverride p asked tick := by
  subst hasked
  obtain ⟨hlist, hunlist, hdrain⟩ := wants_of_action hs tick
  obtain ⟨clist, cunlist, ccount⟩ := action_of_call p tick
  refine ⟨rfl, hs, fun r hr => hlist (clist r hr), fun r hr => (hunlist (cunlist r hr)).2,
    fun r hr => (hdrain (ccount r hr)).2, fun ho r hr => ?_, fun ho => ⟨fun r hr => ?_, ?_⟩⟩
  · exact not_wants_of_unlist ho tick (hlist (clist r hr))
  · exact not_wants_of_list ho tick (hunlist (cunlist r hr)).2
  · cases hc : (update p tick).closed with
    | none => rfl
    | some s => exact absurd (hdrain (action_of_closed hc)).2 (not_wants_of_list ho tick)

def ReturnsAt (_ : VastProvider) : Input → Prop
  | .setOverride _ => True
  | .update tick => Returns tick

instance (p : VastProvider) : ∀ i, Decidable (ReturnsAt p i)
  | .setOverride _ => isTrue trivial
  | .update tick => inferInstanceAs (Decidable (Returns tick))

/-- Each tick of the run follows what was asked for last before it. -/
def OverrideFollowed (p : VastProvider) (inputs : List Input) : Prop :=
  ∀ before tick after q, inputs = before ++ .update tick :: after →
    Run.exec (Run.total step) p before = some q → FollowsOverride q (asked before) tick

/-- The operator's override has priority in every run whose CLI methods return. -/
theorem override_priority (preListMicros : ℤ) (inputs : List Input)
    (hreturns : Run.Along (Run.total step) ReturnsAt (initial true preListMicros) inputs) :
    OverrideFollowed (initial true preListMicros) inputs := by
  have h0 : (initial true preListMicros).state ≠ .listing := by
    simp [initial]
  have hkeep : ∀ p i q, p.state ≠ .listing → ReturnsAt p i →
      Run.total step p i = some q → q.state ≠ .listing := by
    intro p i q hs hr hstep
    cases hstep
    cases i with
    | setOverride override => exact hs
    | update tick => exact state_update_ne_listing hr.list hs
  intro before tick after q hsplit hq
  rw [hsplit, Run.along_append_iff] at hreturns
  exact followsOverride (Run.exec_invariant hkeep h0 hreturns.1 hq) (override_exec hq) tick

theorem override_priority_forced :
    OverrideFollowed (initial true 600000000)
      [.update (quietTick true 0), .setOverride .unlist, .update (quietTick true 0),
        .update (quietTick true 1), .setOverride .list, .update (quietTick false 0)] :=
  override_priority 600000000 _ (by decide)

end HadcdAgent.Vast
