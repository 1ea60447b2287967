import HadcdAgent.Mining.Recorded

/-!
# Mining time and suspended time

The pauses of a `gpu_mining_fill` session as its signals show them, and the seconds that
`run_gpu_mining_fill` counts.
-/

namespace HadcdAgent.Mining

open Lib

/-! ### What the signals and the observations say -/

/-- Suspends and resumes alternate, beginning with a resume when `paused` holds. -/
def Alternates : Bool → List Signal → Prop
  | _, [] => True
  | false, .suspend _ :: signals => Alternates true signals
  | true, .resume _ :: signals => Alternates false signals
  | false, .resume _ :: _ => False
  | true, .suspend _ :: _ => False

/-- The time from each suspend to the matching resume, or to `stop`; `since` is an open
pause's beginning. -/
def pausedTime (stop : ℚ) : Option ℚ → List Signal → ℚ
  | none, [] => 0
  | some since, [] => stop - since
  | none, .suspend time :: signals => pausedTime stop (some time) signals
  | some since, .resume time :: signals => time - since + pausedTime stop none signals
  | none, .resume _ :: signals => pausedTime stop none signals
  | some since, .suspend _ :: signals => pausedTime stop (some since) signals

structure PausesExcluded (l : Launch) (s : Session) : Prop where
  alternates : Alternates false s.signals
  paused : s.totalPausedSec = pausedTime s.now none s.signals
  wholeLength : activeSec l s + s.totalPausedSec = s.now - l.startTime

/-- When the clock is read behind an observation, and whether other processes were seen. -/
abbrev Observation := ℚ × Bool

def Pass.behind (now : ℚ) (p : Pass) : ℚ := now + p.untilTest + p.untilSleep + p.elapsed

/-- The observations that the readings of the clock and the miner's exit leave room for. -/
def observations (deadline : ℚ) : ℚ → List Pass → List Observation
  | _, [] => []
  | now, p :: passes =>
    if now + p.untilTest < deadline then
      (p.behind now, p.otherPids ≠ []) ::
        if p.exit = .none then observations deadline (p.behind now) passes else []
    else []

/-- The last reading of the clock in the loop. -/
def lastReading (deadline : ℚ) : ℚ → List Pass → ℚ
  | now, [] => now
  | now, p :: passes =>
    if now + p.untilTest < deadline then
      if p.exit = .none then lastReading deadline (p.behind now) passes else p.behind now
    else now + p.untilTest

def occupy (since : Option ℚ) (seen : Observation) : Option ℚ :=
  if seen.2 then some (since.getD seen.1) else none

/-- Since when other processes have been seen each time; `none` when the last look, or no
look at all, found the GPU free. -/
def occupiedSince (seen : List Observation) : Option ℚ := seen.foldl occupy none

/-! ### Whole pauses and an open one -/

def signalsOf (pauses : List (ℚ × ℚ)) (since : Option ℚ) : List Signal :=
  (pauses.flatMap fun q => [.suspend q.1, .resume q.2]) ++ since.toList.map .suspend

def wholePauses (pauses : List (ℚ × ℚ)) : ℚ := (pauses.map fun q => q.2 - q.1).sum

theorem signalsOf_cons (q : ℚ × ℚ) (pauses : List (ℚ × ℚ)) (since : Option ℚ) :
    signalsOf (q :: pauses) since = .suspend q.1 :: .resume q.2 :: signalsOf pauses since := rfl

theorem signalsOf_suspend (pauses : List (ℚ × ℚ)) (time : ℚ) :
    signalsOf pauses none ++ [.suspend time] = signalsOf pauses (some time) := by
  rw [signalsOf, signalsOf, List.append_assoc]
  rfl

theorem signalsOf_resume (pauses : List (ℚ × ℚ)) (since time : ℚ) :
    signalsOf pauses (some since) ++ [.resume time] =
      signalsOf (pauses ++ [(since, time)]) none := by
  rw [signalsOf, signalsOf, List.flatMap_append, List.append_assoc, List.append_assoc]
  rfl

theorem wholePauses_snoc (pauses : List (ℚ × ℚ)) (since time : ℚ) :
    wholePauses (pauses ++ [(since, time)]) = wholePauses pauses + (time - since) := by
  rw [wholePauses, List.map_append, List.sum_append, List.map_singleton, List.sum_singleton]
  rfl

theorem alternates_signalsOf (pauses : List (ℚ × ℚ)) (since : Option ℚ) :
    Alternates false (signalsOf pauses since) := by
  induction pauses with
  | nil => cases since <;> trivial
  | cons q pauses ih => exact ih

theorem pausedTime_signalsOf (stop : ℚ) (pauses : List (ℚ × ℚ)) (since : Option ℚ) :
    pausedTime stop none (signalsOf pauses since) =
      wholePauses pauses + pausedTime stop since [] := by
  induction pauses with
  | nil =>
    rw [show wholePauses [] = 0 from rfl, zero_add]
    cases since <;> rfl
  | cons q pauses ih =>
    have hsum : wholePauses (q :: pauses) = q.2 - q.1 + wholePauses pauses := rfl
    rw [signalsOf_cons, pausedTime, pausedTime, ih, hsum, add_assoc]

/-! ### The loop -/

/-- The locals count the whole pauses, and know the open one. -/
structure Counted (since : Option ℚ) (s : Session) : Prop where
  opened : (if s.paused then some s.pauseStart else none) = since
  counted : ∃ pauses, s.signals = signalsOf pauses since ∧ s.totalPausedSec = wholePauses pauses

theorem Counted.of_eq {since : Option ℚ} {s t : Session} (h : Counted since s)
    (hpaused : t.paused = s.paused) (hstart : t.pauseStart = s.pauseStart)
    (hsignals : t.signals = s.signals) (htotal : t.totalPausedSec = s.totalPausedSec) :
    Counted since t := by
  constructor
  · rw [hpaused, hstart]
    exact h.opened
  · rw [hsignals, htotal]
    exact h.counted

theorem counted_afterSignal {since : Option ℚ} {s : Session} (h : Counted since s)
    (pressure : Bool) :
    Counted (occupy since (s.now, pressure)) (afterSignal (some pressure) s) := by
  obtain ⟨rfl, pauses, hsignals, htotal⟩ := h
  cases hpaused : s.paused with
  | false =>
    rw [hpaused] at hsignals
    cases pressure with
    | false =>
      have hstays : afterSignal (some false) s = s := by simp [afterSignal, needsSignal, hpaused]
      rw [hstays]
      exact ⟨by simp [hpaused, occupy], pauses, hsignals, htotal⟩
    | true =>
      have hsuspend : afterSignal (some true) s = s.suspend := by
        simp [afterSignal, needsSignal, sendSignal, hpaused]
      rw [hsuspend]
      refine ⟨rfl, pauses, ?_, htotal⟩
      rw [Session.suspend, hsignals]
      exact signalsOf_suspend pauses s.now
  | true =>
    rw [hpaused] at hsignals
    cases pressure with
    | false =>
      have hresume : afterSignal (some false) s = s.resume := by
        simp [afterSignal, needsSignal, sendSignal, hpaused]
      rw [hresume]
      refine ⟨rfl, pauses ++ [(s.pauseStart, s.now)], ?_, ?_⟩
      · rw [Session.resume, hsignals]
        exact signalsOf_resume pauses s.pauseStart s.now
      · rw [wholePauses_snoc, ← htotal]
        rfl
    | true =>
      have hstays : afterSignal (some true) s = s := by simp [afterSignal, needsSignal, hpaused]
      rw [hstays]
      exact ⟨by simp [hpaused, occupy], pauses, hsignals, htotal⟩

section Loop

variable {deadline pollSec : ℚ} {s t : Session}

theorem counted_fillLoop (hpoll : 0 < pollSec) {passes : List Pass} {since : Option ℚ}
    (h : Counted since s)
    (hloop : fillLoop gpuWatch deadline pollSec passes s = some (t, .ok ())) :
    Counted ((observations deadline s.now passes).foldl occupy since) t ∧
      t.now = lastReading deadline s.now passes := by
  induction passes generalizing s since with
  | nil => cases hloop
  | cons p passes ih =>
    have hclean : Clean gpuWatch deadline s p := by
      by_contra hclean
      obtain ⟨u, e, hu⟩ := fillPass_of_not_clean hpoll hclean
      rw [fillLoop, hu] at hloop
      cases hloop
    rw [fillLoop, fillPass_of_clean hpoll hclean] at hloop
    rw [observations, lastReading]
    split_ifs at hloop ⊢ with hlate hexit
    · have hawake : Counted since (awake deadline pollSec s p) := h.of_eq rfl rfl rfl rfl
      rw [checkExit, if_pos hexit] at hloop
      have hrest := ih (counted_afterSignal hawake _) hloop
      rw [now_afterSignal] at hrest
      exact hrest
    · have hawake : Counted since (awake deadline pollSec s p) := h.of_eq rfl rfl rfl rfl
      rw [checkExit, if_neg hexit] at hloop
      cases hloop
      exact ⟨(counted_afterSignal hawake _).of_eq rfl rfl rfl rfl, now_afterSignal ..⟩
    · cases hloop
      exact ⟨h.of_eq rfl rfl rfl rfl, rfl⟩

end Loop

/-! ### The session -/

def gpuSeen (c : Config) (l : Launch) (passes : List Pass) : List Observation :=
  observations (l.deadline c.durationSec) l.session.now passes

/-- The reading of the clock for `end_time`. -/
def endTime (c : Config) (l : Launch) (passes : List Pass) : ℚ :=
  lastReading (l.deadline c.durationSec) l.session.now passes + l.untilEnd

/-- No pause is open at the end of the session: the last look found the GPU free, or the
session ends at the moment of the suspend. -/
def NoOpenPause (c : Config) (l : Launch) (passes : List Pass) : Prop :=
  ∀ since, occupiedSince (gpuSeen c l passes) = some since → endTime c l passes = since

theorem excluded_iff {l : Launch} {s : Session} {since : Option ℚ} (h : Counted since s) :
    PausesExcluded l s ↔ pausedTime s.now since [] = 0 := by
  obtain ⟨-, pauses, hsignals, htotal⟩ := h
  have hopen : s.totalPausedSec = pausedTime s.now none s.signals ↔
      pausedTime s.now since [] = 0 := by
    rw [hsignals, htotal, pausedTime_signalsOf, left_eq_add]
  constructor
  · intro hexcluded
    exact hopen.mp hexcluded.paused
  · intro hnone
    exact {
      alternates := by
        rw [hsignals]
        exact alternates_signalsOf ..
      paused := hopen.mpr hnone
      wholeLength := sub_add_cancel .. }

theorem pausedTime_nil_eq_zero_iff {stop : ℚ} {since : Option ℚ} :
    pausedTime stop since [] = 0 ↔ ∀ time, since = some time → stop = time := by
  cases since with
  | none => exact iff_of_true rfl fun _ h => by cases h
  | some time =>
    rw [pausedTime, sub_eq_zero]
    constructor
    · rintro h _ ⟨⟩
      exact h
    · intro h
      exact h time rfl

/-- In a session that returns, suspended time is counted exactly when no pause is open at
the end. -/
theorem pausesExcluded_iff (c : Config) (l : Launch) (log : List LogLine) (passes : List Pass)
    {o : Outcome GpuResult} {r : GpuResult} (h : runGpuMiningFill c l log passes = some o)
    (hr : o.result = .ok r) :
    PausesExcluded l o.session ↔ NoOpenPause c l passes := by
  obtain ⟨⟨t, ended⟩, hloop, rfl⟩ := Option.map_eq_some_iff.mp h
  cases ended with
  | error e => cases hr
  | ok _ =>
    have hstart : Counted none l.session := ⟨rfl, [], rfl, rfl⟩
    obtain ⟨hcounted, hnow⟩ := counted_fillLoop c.pollPositive hstart hloop
    have hclosed : Counted (occupiedSince (gpuSeen c l passes)) (l.close t) :=
      hcounted.of_eq rfl rfl rfl rfl
    have hend : (l.close t).now = endTime c l passes := by
      rw [endTime, ← hnow]
      rfl
    rw [NoOpenPause, ← hend, ← pausedTime_nil_eq_zero_iff]
    exact excluded_iff hclosed

/-- Another process is seen after four seconds, and stays. -/
def staysOccupied : List Pass :=
  [⟨0, 0, (4 : ℕ), [111], .none, false⟩, ⟨(6 : ℕ), 0, 0, [], .none, false⟩]

def suspendedAtEnd : Session := ⟨10, true, 0, 4, false, [.suspend 4], [4]⟩

theorem fillLoop_staysOccupied :
    fillLoop gpuWatch (launched.deadline tenSeconds.durationSec) tenSeconds.pollSec staysOccupied
      launched.session = some ({ suspendedAtEnd with running := true }, .ok ()) := by
  decide +kernel

def reportedAtEnd : Outcome GpuResult :=
  ⟨suspendedAtEnd, logSession [] 0 10 tenSeconds.columns,
    .ok (gpuResult tenSeconds launched suspendedAtEnd)⟩

theorem run_staysOccupied :
    runGpuMiningFill tenSeconds launched [] staysOccupied = some reportedAtEnd := by
  rw [runGpuMiningFill, runFill, fillLoop_staysOccupied, Option.map_some]
  have hclose : launched.close { suspendedAtEnd with running := true } = suspendedAtEnd := by
    decide +kernel
  dsimp only
  rw [hclose]
  rfl

theorem pausesExcluded_iff_staysOccupied :
    PausesExcluded launched suspendedAtEnd ↔ NoOpenPause tenSeconds launched staysOccupied :=
  pausesExcluded_iff tenSeconds launched [] staysOccupied run_staysOccupied rfl

theorem not_pausesExcluded_staysOccupied :
    runGpuMiningFill tenSeconds launched [] staysOccupied = some reportedAtEnd ∧
      ¬ PausesExcluded launched reportedAtEnd.session := by
  refine ⟨run_staysOccupied, fun h => ?_⟩
  have hzero : (0 : ℚ) = 10 - 4 := h.paused
  norm_num at hzero

end HadcdAgent.Mining
