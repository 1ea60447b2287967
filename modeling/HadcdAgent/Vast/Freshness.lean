import HadcdAgent.Vast.Loop

/-!
# The age of the local schedule

`Agent._vast_loop` (`agent/agent.py`) beside a clock: its passes are
`vast_check_interval_sec` apart, and the cached schedule is known by the moment at
which its forecast was fetched.
-/

namespace HadcdAgent.Vast

open Lib

/-! ### The loop with a clock -/

/-- `now` is the moment of the next pass, `fetchedAt` that of the last fetch, and
`online` the time that passes with an answer of the backend have taken since. -/
structure Clocked where
  loop : VastLoop
  now : ℚ
  fetchedAt : Option ℚ
  online : ℚ

def clockedPass (s : LoopSettings) (c : Clocked) (p : Pass) : Clocked :=
  let next := { c with loop := vastPass s c.loop p, now := c.now + s.vastCheckIntervalSec }
  match p.backend, refreshDue s c.loop with
  | none, true => { next with fetchedAt := some c.now, online := 0 }
  | none, false => next
  | some _, _ => { next with online := c.online + s.vastCheckIntervalSec }

def clockedStep (s : LoopSettings) (c : Clocked) (i : LoopInput) : Option Clocked :=
  (loopStep s c.loop i).map fun loop =>
    match i with
    | .setOverride _ => { c with loop := loop }
    | .pass p => clockedPass s c p

def beginClocked (preListMicros : ℤ) (now : ℚ) : Clocked := ⟨beginLoop preListMicros, now, none, 0⟩

/-- A schedule that `update` gets without the backend comes from a forecast that is
at most the refresh time and one interval old. -/
def FreshForecast (s : LoopSettings) (c : Clocked) : LoopInput → Prop
  | .setOverride _ => True
  | .pass p => p.backend = none → ∀ schedule, (chooseSchedule s c.loop p).2 = some schedule →
      ∃ fetched, (clockedPass s c p).fetchedAt = some fetched ∧
        c.now - fetched ≤ s.vastWeatherRefreshSec + s.vastCheckIntervalSec

/-- A pass that falls back on the cached schedule finds that the recorded age and
the time online since the fetch are together at most the refresh time. -/
def AgeCounts (s : LoopSettings) (c : Clocked) : LoopInput → Prop
  | .setOverride _ => True
  | .pass p => p.backend = none →
      (refreshDue s c.loop = true → p.localFetch ≠ none →
        0 ≤ s.vastWeatherRefreshSec + s.vastCheckIntervalSec) ∧
      (refreshDue s c.loop = false →
        c.loop.localScheduleAge.getD 0 + c.online ≤ s.vastWeatherRefreshSec)

instance (s : LoopSettings) (c : Clocked) : ∀ i, Decidable (AgeCounts s c i)
  | .setOverride _ => isTrue trivial
  | .pass p => inferInstanceAs (Decidable (p.backend = none →
      (refreshDue s c.loop = true → p.localFetch ≠ none →
        0 ≤ s.vastWeatherRefreshSec + s.vastCheckIntervalSec) ∧
      (refreshDue s c.loop = false →
        c.loop.localScheduleAge.getD 0 + c.online ≤ s.vastWeatherRefreshSec)))

/-! ### What a pass does to the cache -/

section Pass

variable {s : LoopSettings} {l : VastLoop} {p : Pass}

theorem chooseSchedule_online {schedule : Option Schedule} (hb : p.backend = some schedule) :
    chooseSchedule s l p = (l, some schedule) := by
  rw [chooseSchedule, hb]

theorem chooseSchedule_due (hb : p.backend = none) (hd : refreshDue s l = true) :
    chooseSchedule s l p =
      ({ l with localSchedule := p.localFetch, localScheduleAge := some 0 },
        p.localFetch.map some) := by
  rw [chooseSchedule, hb]
  simp only [hd, if_true]

theorem chooseSchedule_cached (hb : p.backend = none) (hd : refreshDue s l = false) :
    chooseSchedule s l p =
      ({ l with localScheduleAge := l.localScheduleAge.map (· + s.vastCheckIntervalSec) },
        l.localSchedule.map some) := by
  rw [chooseSchedule, hb]
  simp only [hd, Bool.false_eq_true, if_false]

theorem cache_vastPass (s : LoopSettings) (l : VastLoop) (p : Pass) :
    (vastPass s l p).localSchedule = (chooseSchedule s l p).1.localSchedule ∧
      (vastPass s l p).localScheduleAge = (chooseSchedule s l p).1.localScheduleAge := by
  cases hc : (chooseSchedule s l p).2 with
  | none => simp only [vastPass, hc, and_self]
  | some schedule => simp only [vastPass, hc, runUpdate, and_self]

theorem cached_of_not_due (hd : refreshDue s l = false) : l.localSchedule ≠ none := by
  intro hnone
  rw [refreshDue, hnone] at hd
  cases hd

end Pass

/-! ### The invariant -/

/-- The recorded age falls behind the clock by the time spent online. -/
def Dated (s : LoopSettings) (c : Clocked) : Prop :=
  c.loop.localSchedule ≠ none → ∃ fetched age, c.fetchedAt = some fetched ∧
    c.loop.localScheduleAge = some age ∧ c.now - fetched = age + s.vastCheckIntervalSec + c.online

theorem dated_beginClocked (s : LoopSettings) (preListMicros : ℤ) (now : ℚ) :
    Dated s (beginClocked preListMicros now) := fun h => absurd rfl h

theorem dated_clockedPass {s : LoopSettings} {c : Clocked} (h : Dated s c) (p : Pass) :
    Dated s (clockedPass s c p) := by
  obtain ⟨hcache, hage⟩ := cache_vastPass s c.loop p
  unfold Dated clockedPass
  cases hb : p.backend with
  | some schedule =>
    rw [chooseSchedule_online hb] at hcache hage
    intro hsome
    obtain ⟨fetched, age, hf, ha, hnow⟩ := h (hcache ▸ hsome)
    refine ⟨fetched, age, hf, hage.trans ha, ?_⟩
    dsimp only
    linarith
  | none =>
    cases hd : refreshDue s c.loop with
    | true =>
      rw [chooseSchedule_due hb hd] at hage
      intro _
      refine ⟨c.now, 0, rfl, hage, ?_⟩
      dsimp only
      linarith
    | false =>
      rw [chooseSchedule_cached hb hd] at hcache hage
      intro hsome
      obtain ⟨fetched, age, hf, ha, hnow⟩ := h (hcache ▸ hsome)
      refine ⟨fetched, age + s.vastCheckIntervalSec, hf, hage.trans ?_, ?_⟩
      · rw [ha]
        rfl
      · dsimp only
        linarith

theorem dated_step (s : LoopSettings) (c : Clocked) (i : LoopInput) (c' : Clocked)
    (h : Dated s c) (hstep : clockedStep s c i = some c') : Dated s c' := by
  obtain ⟨loop, hloop, rfl⟩ := Option.map_eq_some_iff.mp hstep
  cases i with
  | setOverride override =>
    cases hloop
    exact h
  | pass p => exact dated_clockedPass h p

theorem freshForecast_iff (s : LoopSettings) (c : Clocked) (i : LoopInput) (h : Dated s c) :
    FreshForecast s c i ↔ AgeCounts s c i := by
  cases i with
  | setOverride override => exact Iff.rfl
  | pass p =>
    simp only [FreshForecast, AgeCounts]
    refine imp_congr_right fun hb => ?_
    cases hd : refreshDue s c.loop with
    | true =>
      have hat : (clockedPass s c p).fetchedAt = some c.now := by
        simp only [clockedPass, hb, hd]
      rw [chooseSchedule_due hb hd, hat]
      cases p.localFetch with
      | none => simp
      | some schedule => simp
    | false =>
      have hcached := cached_of_not_due hd
      obtain ⟨fetched, age, hf, ha, hnow⟩ := h hcached
      have hat : (clockedPass s c p).fetchedAt = some fetched := by
        simp only [clockedPass, hb, hd, hf]
      obtain ⟨schedule, hsched⟩ := Option.ne_none_iff_exists'.mp hcached
      rw [chooseSchedule_cached hb hd, hat, hsched, ha]
      simp only [Option.map_some, Option.some.injEq, forall_eq', exists_eq_left', Option.getD_some,
        Bool.false_eq_true, false_implies, true_and, true_implies]
      constructor
      · intro hle
        linarith
      · intro hle
        linarith

/-- In every run of the loop the local schedules are fresh exactly when the time
spent online counts for nothing that the recorded age would have had to count. -/
theorem freshForecast_iff_ageCounts (s : LoopSettings) (preListMicros : ℤ) (now : ℚ)
    (inputs : List LoopInput) :
    Run.Along (clockedStep s) (FreshForecast s) (beginClocked preListMicros now) inputs ↔
      Run.Along (clockedStep s) (AgeCounts s) (beginClocked preListMicros now) inputs := by
  exact Run.along_congr (dated_step s) (freshForecast_iff s) (dated_beginClocked s preListMicros now)

def onlinePass : LoopInput := passOf (quietTick false 0)

def offlinePass : LoopInput := .pass ⟨none, some ⟨false, .absent⟩, quietTick false 0⟩

/-- The backend is away for one pass, back for an hour, and away again. -/
theorem not_freshForecast_hourOnline :
    ¬ Run.Along (clockedStep shippedLoop) (FreshForecast shippedLoop) (beginClocked 600000000 0)
      ((offlinePass :: List.replicate 61 onlinePass) ++ [offlinePass]) := by
  intro h
  have hcounts := (Run.along_congr (dated_step shippedLoop) (freshForecast_iff shippedLoop)
    (dated_beginClocked shippedLoop 600000000 0)).mp h
  exact absurd hcounts (by decide +kernel)

end HadcdAgent.Vast
