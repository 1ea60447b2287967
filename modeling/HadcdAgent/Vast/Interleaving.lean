import HadcdAgent.Vast.Provider

/-!
# `update` in a worker thread

The Vast loop awaits `VastProvider.update` in an executor, so the heartbeat loop
sees the provider before, during and after the CLI call. A tick is cut at the call:
what is done before it, and what is done with its answer.
-/

namespace HadcdAgent.Vast

open Lib

/-- Where the tick in flight is: in a CLI call, or with its answer. -/
inductive Call where
  | idle
  | listing
  | listReturned (r : Option Bool)
  | unlisting
  | unlistReturned (r : Option Bool)
  | counting
  | countReturned (r : Option ℤ)
  deriving DecidableEq

def beginUpdate (p : VastProvider) (schedule : Option Schedule) (now : ℤ) : VastProvider × Call :=
  match action p schedule now with
  | .idle _ => (p, .idle)
  | .list => ({ p with state := .listing }, .listing)
  | .unlist => (p, .unlisting)
  | .drain => (p, .counting)

def answer (tick : Tick) : Call → Call
  | .listing => .listReturned tick.listMachine
  | .unlisting => .unlistReturned tick.unlistMachine
  | .counting => .countReturned tick.activeRentalCount
  | call => call

def finishUpdate (p : VastProvider) (call : Call) (stamp : ℤ)
    (price : Option (Option PyFloat)) : VastProvider :=
  match call with
  | .listReturned r => (listed p ⟨none, 0, r, none, none, price, stamp⟩).provider
  | .unlistReturned r => (doUnlist p ⟨none, 0, none, r, none, price, stamp⟩).provider
  | .countReturned r => (drain p ⟨none, 0, none, none, r, price, stamp⟩).provider
  | .idle | .listing | .unlisting | .counting => p

theorem finishUpdate_beginUpdate (p : VastProvider) (tick : Tick) :
    finishUpdate (beginUpdate p tick.schedule tick.now).1
      (answer tick (beginUpdate p tick.schedule tick.now).2) tick.stamp tick.getListingPrice =
    (update p tick).provider := by
  rw [beginUpdate, update]
  cases action p tick.schedule tick.now <;> rfl

theorem state_of_action (p : VastProvider) (schedule : Option Schedule) (now : ℤ) :
    match action p schedule now with
    | .idle _ => True
    | .list => p.enabled = true ∧ p.state ≠ .listed
    | .unlist => p.enabled = true ∧ p.state = .listed
    | .drain => p.enabled = true ∧ p.state = .unlisting := by
  unfold action
  by_cases he : p.enabled = true
  · rw [if_pos he]
    cases schedule with
    | none => trivial
    | some s =>
      cases hw : wantListed p s now <;> cases hs : p.state <;> simp [he, hw]
  · rw [if_neg he]
    trivial

/-- The state that an answer leads to. -/
def stateAfter (s : VastProviderState) : Call → VastProviderState
  | .listReturned (some true) => .listed
  | .listReturned (some false) => .unlisted
  | .unlistReturned (some true) => .unlisting
  | .countReturned (some 0) => .unlisted
  | _ => s

theorem state_finishUpdate (p : VastProvider) (call : Call) (stamp : ℤ)
    (price : Option (Option PyFloat)) :
    (finishUpdate p call stamp price).state = stateAfter p.state call := by
  cases call with
  | listReturned r =>
    rcases state_listed p ⟨none, 0, r, none, none, price, stamp⟩ with ⟨h, hs⟩ | ⟨h, hs⟩ | ⟨h, hs⟩
    all_goals
      simp only at h
      subst h
      exact hs
  | unlistReturned r =>
    cases r with
    | none => rfl
    | some b => cases b <;> rfl
  | countReturned r =>
    cases r with
    | none => rfl
    | some c =>
      by_cases h : c = 0
      · subst h
        rfl
      · have hd : drain p ⟨none, 0, none, none, some c, price, stamp⟩ =
            ⟨p, [.activeRentalCount (some c)], none, false⟩ := by simp [drain, h]
        simp only [finishUpdate, hd, stateAfter]
        split <;> simp_all
  | _ => rfl

theorem enabled_finishUpdate (p : VastProvider) (call : Call) (stamp : ℤ)
    (price : Option (Option PyFloat)) : (finishUpdate p call stamp price).enabled = p.enabled := by
  cases call with
  | listReturned r =>
    simp only [finishUpdate, listed]
    rcases r with _ | _ | _
    · rfl
    · rfl
    · cases p.listedAt <;> cases price <;> rfl
  | unlistReturned r => rcases r with _ | _ | _ <;> rfl
  | countReturned r =>
    cases r with
    | none => rfl
    | some c =>
      simp only [finishUpdate, drain]
      split_ifs <;> rfl
  | _ => rfl

end HadcdAgent.Vast
