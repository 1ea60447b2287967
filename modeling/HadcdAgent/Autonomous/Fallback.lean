import HadcdAgent.Vast.Interleaving

/-!
# The autonomous fallback beside the Vast.AI loop

The decision of `Agent._heartbeat_loop` (`agent/agent.py`) to start or stop the
autonomous miner, interleaved with `VastProvider.update` in its worker thread and
with renters that come and go on the marketplace.
-/

namespace HadcdAgent.Autonomous

open Lib Vast

/-! ### The system -/

/-- `heartbeat` is `_hb_ok` between a heartbeat and the decision that follows it. -/
structure World where
  provider : VastProvider
  call : Call
  offerListed : Bool
  rentals : ℕ
  heartbeat : Option Bool
  minerActive : Bool
  offlineSince : Option ℤ
  heatOverrideActive : Bool

def initial (enabled : Bool) (preListMicros : ℤ) : World :=
  ⟨Vast.initial enabled preListMicros, .idle, false, 0, none, false, none, false⟩

/-- How a CLI command ends: a failed one changes nothing. -/
inductive Reply where
  | ok
  | fails
  | raises

/-- A heartbeat is answered (with what its body was parsed to) or fails; `decide`
is the fallback matrix with its two readings of the clock. -/
inductive Input where
  | heartbeatOk (override : Option Override) (vacant : Option Bool)
  | heartbeatFailed
  | decide (now now' : ℤ)
  | minerEnds
  | updateBegin (schedule : Option Schedule) (now : ℤ)
  | reply (r : Reply)
  | updateFinish (stamp : ℤ) (price : Option (Option PyFloat))
  | rentalBegins
  | rentalEnds

def vastRenting (p : VastProvider) : Bool :=
  p.enabled && (p.state = .listed || p.state = .listing)

/-- `_offline_since` once the branch that may start the miner has set it. -/
def offlineFrom (w : World) (now : ℤ) : ℤ := w.offlineSince.getD now

def fallbackDue (after : ℤ) (w : World) (now now' : ℤ) : Bool :=
  after ≤ now' - offlineFrom w now && !w.minerActive && !w.heatOverrideActive

/-- The fallback matrix: the world after it, and whether `start` was called. -/
def fallback (after : ℤ) (w : World) (hbOk : Bool) (now now' : ℤ) : World × Bool :=
  if hbOk then ({ w with minerActive := false, offlineSince := none }, false)
  else if vastRenting w.provider then ({ w with minerActive := false }, false)
  else
    let w := { w with offlineSince := some (offlineFrom w now) }
    if fallbackDue after w now now' then ({ w with minerActive := true }, true) else (w, false)

def answerCli (w : World) : Reply → Option World
  | .ok =>
    match w.call with
    | .listing => some { w with call := .listReturned (some true), offerListed := true }
    | .unlisting => some { w with call := .unlistReturned (some true), offerListed := false }
    | .counting => some { w with call := .countReturned (some w.rentals) }
    | _ => none
  | .fails =>
    match w.call with
    | .listing => some { w with call := .listReturned (some false) }
    | .unlisting => some { w with call := .unlistReturned (some false) }
    | .counting => some { w with call := .countReturned (some (-1)) }
    | _ => none
  | .raises =>
    match w.call with
    | .listing => some { w with call := .listReturned none }
    | .unlisting => some { w with call := .unlistReturned none }
    | .counting => some { w with call := .countReturned none }
    | _ => none

def returned : Call → Bool
  | .listReturned _ | .unlistReturned _ | .countReturned _ => true
  | .idle | .listing | .unlisting | .counting => false

def step (after : ℤ) (w : World) : Input → Option World
  | .heartbeatOk override vacant =>
    if w.heartbeat = none then some { w with
      provider := if w.provider.enabled then
        (override.map (setOverride w.provider)).getD w.provider else w.provider
      heatOverrideActive := vacant.getD w.heatOverrideActive
      heartbeat := some true }
    else none
  | .heartbeatFailed =>
    if w.heartbeat = none then some { w with heartbeat := some false } else none
  | .decide now now' =>
    w.heartbeat.map fun hbOk => { (fallback after w hbOk now now').1 with heartbeat := none }
  | .minerEnds => some { w with minerActive := false }
  | .updateBegin schedule now =>
    if w.call = .idle then
      let begun := beginUpdate w.provider schedule now
      some { w with provider := begun.1, call := begun.2 }
    else none
  | .reply r => answerCli w r
  | .updateFinish stamp price =>
    if returned w.call then
      some { w with provider := finishUpdate w.provider w.call stamp price, call := .idle }
    else none
  | .rentalBegins => if w.offerListed then some { w with rentals := w.rentals + 1 } else none
  | .rentalEnds => if 0 < w.rentals then some { w with rentals := w.rentals - 1 } else none

def StartsMiner (after : ℤ) (w : World) : Input → Prop
  | .decide now now' => ∃ hbOk, w.heartbeat = some hbOk ∧ (fallback after w hbOk now now').2 = true
  | _ => False

/-! ### Mutual exclusion -/

/-- No failed listing is taken over while a renter is there, and the fallback does
not fall due while the provider waits for renters to leave. -/
def RentersSeen (after : ℤ) (w : World) : Input → Prop
  | .updateFinish _ _ => w.call = .listReturned (some false) → w.rentals = 0
  | .decide now now' =>
    w.heartbeat = some false → w.provider.state = .unlisting →
      fallbackDue after w now now' = true → w.rentals = 0
  | _ => True

instance (after : ℤ) (w : World) : ∀ i, Decidable (RentersSeen after w i)
  | .updateFinish _ _ =>
    inferInstanceAs (Decidable (w.call = .listReturned (some false) → w.rentals = 0))
  | .decide now now' =>
    inferInstanceAs (Decidable (w.heartbeat = some false → w.provider.state = .unlisting →
      fallbackDue after w now now' = true → w.rentals = 0))
  | .heartbeatOk _ _ | .heartbeatFailed | .minerEnds | .updateBegin _ _ | .reply _
  | .rentalBegins | .rentalEnds => isTrue trivial

def CallState : Call → VastProviderState → Prop
  | .idle, _ => True
  | .listing, s | .listReturned _, s => s = .listing
  | .unlisting, s | .unlistReturned _, s => s = .listed
  | .counting, s | .countReturned _, s => s = .unlisting

/-- UNLISTED means that nobody rents; only a listed machine is on offer, or one
whose listing has just been answered. -/
structure Honest (w : World) : Prop where
  unlisted : w.provider.state = .unlisted → w.rentals = 0
  inCall : CallState w.call w.provider.state
  onOffer : w.offerListed = true →
    w.provider.state = .listed ∧ w.call ≠ .unlistReturned (some true) ∨
      w.call = .listReturned (some true)
  drained : w.call = .countReturned (some 0) → w.rentals = 0
  disabled : w.provider.enabled = false → w.provider.state = .unlisted ∧ w.call = .idle

theorem honest_initial (enabled : Bool) (preListMicros : ℤ) :
    Honest (initial enabled preListMicros) :=
  ⟨fun _ => rfl, trivial, fun h => (nomatch h), fun _ => rfl, fun _ => ⟨rfl, rfl⟩⟩

theorem Honest.congr {w w' : World} (h : Honest w) (hs : w'.provider.state = w.provider.state)
    (he : w'.provider.enabled = w.provider.enabled) (hc : w'.call = w.call)
    (ho : w'.offerListed = w.offerListed) (hr : w'.rentals = w.rentals) : Honest w' where
  unlisted := by rw [hs, hr]; exact h.unlisted
  inCall := by rw [hs, hc]; exact h.inCall
  onOffer := by rw [hs, hc, ho]; exact h.onOffer
  drained := by rw [hc, hr]; exact h.drained
  disabled := by rw [hs, he, hc]; exact h.disabled

theorem Honest.not_offered {w : World} (h : Honest w) (hs : w.provider.state ≠ .listed)
    (hc : w.call ≠ .listReturned (some true)) : w.offerListed ≠ true := fun ho => by
  rcases h.onOffer ho with ⟨hl, -⟩ | hr
  · exact hs hl
  · exact hc hr

/-- With no tick in flight and the machine not UNLISTED, only the offer matters. -/
theorem honest_idle {w : World} (hc : w.call = .idle) (hs : w.provider.state ≠ .unlisted)
    (he : w.provider.enabled = true)
    (ho : w.offerListed = true → w.provider.state = .listed) : Honest w := by
  refine ⟨fun hu => absurd hu hs, ?_, fun hl => Or.inl ⟨ho hl, ?_⟩, fun hd => ?_, fun hd => ?_⟩
  · rw [hc]
    trivial
  · rw [hc]
    decide
  · rw [hc] at hd
    cases hd
  · rw [he] at hd
    cases hd

theorem fallback_frame (after : ℤ) (w : World) (hbOk : Bool) (now now' : ℤ) :
    (fallback after w hbOk now now').1.provider = w.provider ∧
    (fallback after w hbOk now now').1.call = w.call ∧
    (fallback after w hbOk now now').1.offerListed = w.offerListed ∧
    (fallback after w hbOk now now').1.rentals = w.rentals := by
  simp only [fallback]
  split_ifs <;> exact ⟨rfl, rfl, rfl, rfl⟩

theorem fallback_starts {after : ℤ} {w : World} {hbOk : Bool} {now now' : ℤ}
    (h : (fallback after w hbOk now now').2 = true) :
    hbOk = false ∧ vastRenting w.provider = false ∧ fallbackDue after w now now' = true := by
  simp only [fallback] at h
  split_ifs at h with h1 h2 h3
  exact ⟨Bool.eq_false_iff.mpr h1, Bool.eq_false_iff.mpr h2, h3⟩

theorem state_of_not_renting {p : VastProvider} (h : vastRenting p = false) :
    p.enabled = false ∨ p.state = .unlisted ∨ p.state = .unlisting := by
  cases he : p.enabled with
  | false => exact Or.inl rfl
  | true => cases hs : p.state <;> simp [vastRenting, he, hs] at h ⊢

theorem no_rentals_of_start {after : ℤ} {w : World} (h : Honest w) {i : Input}
    (hg : RentersSeen after w i) (hs : StartsMiner after w i) : w.rentals = 0 := by
  cases i with
  | decide now now' =>
    obtain ⟨hbOk, hhb, hstart⟩ := hs
    obtain ⟨rfl, hrent, hdue⟩ := fallback_starts hstart
    rcases state_of_not_renting hrent with he | hst | hst
    · exact h.unlisted (h.disabled he).1
    · exact h.unlisted hst
    · exact hg hhb hst hdue
  | _ => exact hs.elim

theorem honest_updateBegin {w : World} (h : Honest w) (hidle : w.call = .idle)
    (schedule : Option Schedule) (now : ℤ) :
    Honest { w with
      provider := (beginUpdate w.provider schedule now).1
      call := (beginUpdate w.provider schedule now).2 } := by
  have hact := state_of_action w.provider schedule now
  have hoffer : w.offerListed = true → w.provider.state = .listed := fun ho => by
    rcases h.onOffer ho with ⟨hs, -⟩ | hc
    · exact hs
    · rw [hidle] at hc
      cases hc
  rw [beginUpdate]
  cases haction : action w.provider schedule now with
  | idle raised =>
    exact h.congr rfl rfl hidle.symm rfl rfl
  | list =>
    rw [haction] at hact
    exact ⟨fun hs => (by cases hs), rfl, fun ho => absurd (hoffer ho) hact.2,
      fun hc => (by cases hc), fun he => absurd (he.symm.trans hact.1) (by decide)⟩
  | unlist =>
    rw [haction] at hact
    exact ⟨h.unlisted, hact.2, fun ho => Or.inl ⟨hoffer ho, fun hc => (by cases hc)⟩,
      fun hc => (by cases hc), fun he => absurd (he.symm.trans hact.1) (by decide)⟩
  | drain =>
    rw [haction] at hact
    exact ⟨h.unlisted, hact.2, fun ho => absurd ((hoffer ho).symm.trans hact.2) (by decide),
      fun hc => (by cases hc), fun he => absurd (he.symm.trans hact.1) (by decide)⟩

theorem honest_answerCli {w w' : World} (h : Honest w) {r : Reply}
    (hr : answerCli w r = some w') : Honest w' := by
  have hun := h.unlisted
  have hin := h.inCall
  have hbusy : w.call ≠ .idle → w.provider.enabled ≠ false := fun hne he =>
    hne (h.disabled he).2
  cases hc : w.call with
  | idle => cases r <;> simp [answerCli, hc] at hr
  | listReturned r' => cases r <;> simp [answerCli, hc] at hr
  | unlistReturned r' => cases r <;> simp [answerCli, hc] at hr
  | countReturned r' => cases r <;> simp [answerCli, hc] at hr
  | listing =>
    rw [hc] at hin hbusy
    have hen := hbusy (by decide)
    have hno := h.not_offered (by rw [show w.provider.state = .listing from hin]; decide)
      (by rw [hc]; decide)
    cases r <;> simp only [answerCli, hc, Option.some.injEq] at hr <;> subst hr
    · exact ⟨hun, hin, fun _ => Or.inr rfl, fun he => (nomatch he), fun he => absurd he hen⟩
    · exact ⟨hun, hin, fun ho => absurd ho hno, fun he => (nomatch he), fun he => absurd he hen⟩
    · exact ⟨hun, hin, fun ho => absurd ho hno, fun he => (nomatch he), fun he => absurd he hen⟩
  | unlisting =>
    rw [hc] at hin hbusy
    have hen := hbusy (by decide)
    cases r <;> simp only [answerCli, hc, Option.some.injEq] at hr <;> subst hr
    · exact ⟨hun, hin, fun ho => (nomatch ho), fun he => (nomatch he), fun he => absurd he hen⟩
    · exact ⟨hun, hin, fun _ => Or.inl ⟨hin, fun he => (nomatch he)⟩, fun he => (nomatch he),
        fun he => absurd he hen⟩
    · exact ⟨hun, hin, fun _ => Or.inl ⟨hin, fun he => (nomatch he)⟩, fun he => (nomatch he),
        fun he => absurd he hen⟩
  | counting =>
    rw [hc] at hin hbusy
    have hen := hbusy (by decide)
    have hno := h.not_offered (by rw [show w.provider.state = .unlisting from hin]; decide)
      (by rw [hc]; decide)
    cases r <;> simp only [answerCli, hc, Option.some.injEq] at hr <;> subst hr
    · -- the count is the truth at the moment it is answered
      refine ⟨hun, hin, fun ho => absurd ho hno, fun he => ?_, fun he => absurd he hen⟩
      simpa using he
    · exact ⟨hun, hin, fun ho => absurd ho hno, fun he => by simp at he,
        fun he => absurd he hen⟩
    · exact ⟨hun, hin, fun ho => absurd ho hno, fun he => by simp at he,
        fun he => absurd he hen⟩

theorem honest_updateFinish {w : World} (h : Honest w) (hret : returned w.call = true)
    (hfail : w.call = .listReturned (some false) → w.rentals = 0) (stamp : ℤ)
    (price : Option (Option PyFloat)) :
    Honest { w with provider := finishUpdate w.provider w.call stamp price, call := .idle } := by
  have hin := h.inCall
  have hst := state_finishUpdate w.provider w.call stamp price
  have hen : (finishUpdate w.provider w.call stamp price).enabled = true := by
    rw [enabled_finishUpdate]
    by_contra he
    rw [(h.disabled (Bool.eq_false_iff.mpr he)).2] at hret
    cases hret
  cases hc : w.call with
  | idle => rw [hc] at hret; cases hret
  | listing => rw [hc] at hret; cases hret
  | unlisting => rw [hc] at hret; cases hret
  | counting => rw [hc] at hret; cases hret
  | listReturned r =>
    rw [hc] at hst hin hen
    have hlisting : w.provider.state = .listing := hin
    have hno : r ≠ some true → w.offerListed ≠ true := fun hr =>
      h.not_offered (by rw [hlisting]; decide) (by rw [hc]; simpa using hr)
    rcases r with _ | _ | _
    · have hs := hst.trans hlisting
      exact honest_idle rfl (fun hu => absurd (hu.symm.trans hs) (by decide)) hen
        fun ho => absurd ho (hno (by decide))
    · exact ⟨fun _ => hfail hc, trivial, fun ho => absurd ho (hno (by decide)),
        fun he => (nomatch he), fun he => absurd (he.symm.trans hen) (by decide)⟩
    · have hs : (finishUpdate w.provider (.listReturned (some true)) stamp price).state =
          .listed := hst
      exact honest_idle rfl (fun hu => absurd (hu.symm.trans hs) (by decide)) hen fun _ => hs
  | unlistReturned r =>
    rw [hc] at hst hin hen
    have hlisted : w.provider.state = .listed := hin
    rcases r with _ | _ | _
    · have hs := hst.trans hlisted
      exact honest_idle rfl (fun hu => absurd (hu.symm.trans hs) (by decide)) hen fun _ => hs
    · have hs := hst.trans hlisted
      exact honest_idle rfl (fun hu => absurd (hu.symm.trans hs) (by decide)) hen fun _ => hs
    · have hs : (finishUpdate w.provider (.unlistReturned (some true)) stamp price).state =
          .unlisting := hst
      have hno : w.offerListed ≠ true := fun ho => by
        rcases h.onOffer ho with ⟨-, hne⟩ | he
        · exact hne hc
        · rw [hc] at he
          cases he
      exact honest_idle rfl (fun hu => absurd (hu.symm.trans hs) (by decide)) hen
        fun ho => absurd ho hno
  | countReturned r =>
    rw [hc] at hst hin hen
    have hunlisting : w.provider.state = .unlisting := hin
    have hno : w.offerListed ≠ true :=
      h.not_offered (by rw [hunlisting]; decide) (by simp [hc])
    by_cases h0 : r = some 0
    · have hrent : w.rentals = 0 := h.drained (by rw [hc, h0])
      exact ⟨fun _ => hrent, trivial, fun ho => absurd ho hno, fun he => (nomatch he),
        fun he => absurd (he.symm.trans hen) (by decide)⟩
    · have hstay : stateAfter w.provider.state (.countReturned r) = w.provider.state := by
        unfold stateAfter
        split <;> simp_all
      have hs := hst.trans (hstay.trans hunlisting)
      exact honest_idle rfl (fun hu => absurd (hu.symm.trans hs) (by decide)) hen
        fun ho => absurd ho hno

/-- A machine on offer is not in a state that counts its renters as gone. -/
theorem honest_rentalBegins {w : World} (h : Honest w) (ho : w.offerListed = true) :
    Honest { w with rentals := w.rentals + 1 } := by
  have hin := h.inCall
  refine ⟨fun hs => ?_, h.inCall, h.onOffer, fun hd => ?_, h.disabled⟩
  · rcases h.onOffer ho with ⟨hl, -⟩ | hc
    · exact absurd (hl.symm.trans hs) (by decide)
    · rw [hc] at hin
      have hlisting : w.provider.state = .listing := hin
      exact absurd (hlisting.symm.trans hs) (by decide)
  · rw [show w.call = .countReturned (some 0) from hd] at hin
    rcases h.onOffer ho with ⟨hl, -⟩ | hc
    · exact absurd (hl.symm.trans hin) (by decide)
    · exact absurd (hc.symm.trans hd) (by decide)

theorem honest_rentalEnds {w : World} (h : Honest w) :
    Honest { w with rentals := w.rentals - 1 } := by
  refine ⟨fun hs => ?_, h.inCall, h.onOffer, fun hd => ?_, h.disabled⟩
  · have h0 := h.unlisted hs
    show w.rentals - 1 = 0
    omega
  · have h0 := h.drained hd
    show w.rentals - 1 = 0
    omega

theorem honest_step (after : ℤ) (w : World) (i : Input) (w' : World) (h : Honest w)
    (hg : RentersSeen after w i) (hw : step after w i = some w') : Honest w' := by
  cases i with
  | heartbeatOk override vacant =>
    simp only [step, Option.ite_none_right_eq_some, Option.some.injEq] at hw
    obtain ⟨-, rfl⟩ := hw
    refine h.congr ?_ ?_ rfl rfl rfl
    · cases override <;> simp only [Option.map_none, Option.map_some, Option.getD] <;>
        split_ifs <;> rfl
    · cases override <;> simp only [Option.map_none, Option.map_some, Option.getD] <;>
        split_ifs <;> rfl
  | heartbeatFailed =>
    simp only [step, Option.ite_none_right_eq_some, Option.some.injEq] at hw
    obtain ⟨-, rfl⟩ := hw
    exact h.congr rfl rfl rfl rfl rfl
  | decide now now' =>
    obtain ⟨hbOk, -, rfl⟩ := Option.map_eq_some_iff.mp hw
    obtain ⟨hp, hc, ho, hr⟩ := fallback_frame after w hbOk now now'
    exact h.congr (congrArg VastProvider.state hp) (congrArg VastProvider.enabled hp) hc ho hr
  | minerEnds =>
    cases Option.some.inj hw
    exact h.congr rfl rfl rfl rfl rfl
  | updateBegin schedule now =>
    simp only [step, Option.ite_none_right_eq_some, Option.some.injEq] at hw
    obtain ⟨hidle, rfl⟩ := hw
    exact honest_updateBegin h hidle schedule now
  | reply r => exact honest_answerCli h hw
  | updateFinish stamp price =>
    simp only [step, Option.ite_none_right_eq_some, Option.some.injEq] at hw
    obtain ⟨hret, rfl⟩ := hw
    exact honest_updateFinish h hret hg stamp price
  | rentalBegins =>
    simp only [step, Option.ite_none_right_eq_some, Option.some.injEq] at hw
    obtain ⟨ho, rfl⟩ := hw
    exact honest_rentalBegins h ho
  | rentalEnds =>
    simp only [step, Option.ite_none_right_eq_some, Option.some.injEq] at hw
    obtain ⟨-, rfl⟩ := hw
    exact honest_rentalEnds h

def NotBesideRenter (after : ℤ) (w : World) (i : Input) : Prop :=
  StartsMiner after w i → w.rentals = 0

def rentedRun : List Input :=
  [.updateBegin (some ⟨true, .absent⟩) 0, .reply .ok, .updateFinish 0 none, .rentalBegins,
    .updateBegin (some ⟨false, .absent⟩) 0, .reply .ok, .updateFinish 0 none]

end HadcdAgent.Autonomous
