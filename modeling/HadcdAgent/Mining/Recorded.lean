import HadcdAgent.Mining.Session

/-!
# Every session is closed and recorded

When the loops of the two mining handlers come to their end without an exception, for all
readings of the clock and all moments at which the miner exits.
-/

namespace HadcdAgent.Mining

open Lib

/-! ### What a session owes -/

structure Recorded {α : Type} (log : List LogLine) (o : Outcome α) : Prop where
  neverNegative : ∀ amount ∈ o.session.slept, 0 ≤ amount
  returns : ∃ result, o.result = .ok result
  notRunning : o.session.running = false
  oneRow : ∃ row, o.log = (if log = [] then [.header] else log) ++ [.session row]

def firstPasses (passes : ℕ → Pass) (n : ℕ) : List Pass := (List.range n).map passes

def Closes {α : Type} (run : List LogLine → List Pass → Option (Outcome α)) (log : List LogLine)
    (passes : ℕ → Pass) : Prop :=
  ∃ n o, run log (firstPasses passes n) = some o ∧ Recorded log o

/-- In a pass that is entered the deadline is not passed when the clock is read again, and
a miner that has exited takes the signal that it gets. -/
def Clean (watch : Pass → Option Bool) (deadline : ℚ) (s : Session) (p : Pass) : Prop :=
  s.now + p.untilTest < deadline → s.now + p.untilTest + p.untilSleep ≤ deadline ∧
    (needsSignal (watch p) s.paused = true → ¬ (p.exit = .beforeSignal ∧ p.signalRaises = true))

/-- The deadline has come at the loop test, or the miner exits in the pass. -/
def Leaves (deadline : ℚ) (s : Session) (p : Pass) : Prop :=
  deadline ≤ s.now + p.untilTest ∨ p.exit ≠ .none

def fillStep (watch : Pass → Option Bool) (deadline pollSec : ℚ) (s : Session) (p : Pass) :
    Option Session :=
  match fillPass watch deadline pollSec s p with
  | .again s => some s
  | .left _ | .raised _ _ => none

/-- The session as the loop begins the pass with this number, if it does. -/
def reached (watch : Pass → Option Bool) (c : Config) (l : Launch) (passes : ℕ → Pass) (n : ℕ) :
    Option Session :=
  Run.exec (fillStep watch (l.deadline c.durationSec) c.pollSec) l.session (firstPasses passes n)

/-- The loop comes to a clean pass that leaves it. -/
def EndsClean (watch : Pass → Option Bool) (c : Config) (l : Launch) (passes : ℕ → Pass) : Prop :=
  ∃ n s, reached watch c l passes n = some s ∧
    Clean watch (l.deadline c.durationSec) s (passes n) ∧
    Leaves (l.deadline c.durationSec) s (passes n)

def AllClean (watch : Pass → Option Bool) (c : Config) (l : Launch) (passes : ℕ → Pass) : Prop :=
  ∀ n s, reached watch c l passes n = some s → Clean watch (l.deadline c.durationSec) s (passes n)

/-- Every sleep lasts as long as asked, or longer. -/
def SleepsLast (watch : Pass → Option Bool) (c : Config) (l : Launch) (passes : ℕ → Pass) : Prop :=
  ∀ n s, reached watch c l passes n = some s →
    min c.pollSec (l.deadline c.durationSec - (s.now + (passes n).untilTest +
      (passes n).untilSleep)) ≤ (passes n).elapsed

/-! ### One pass -/

section Pass

variable {watch : Pass → Option Bool} {deadline pollSec : ℚ} {s t : Session} {p : Pass}

def asleep (deadline pollSec : ℚ) (s : Session) (p : Pass) : Session :=
  { s with
    now := s.now + p.untilTest + p.untilSleep
    slept := s.slept ++ [min pollSec (deadline - (s.now + p.untilTest + p.untilSleep))] }

def awake (deadline pollSec : ℚ) (s : Session) (p : Pass) : Session :=
  { asleep deadline pollSec s p with now := s.now + p.untilTest + p.untilSleep + p.elapsed }

def afterSignal (seen : Option Bool) (s : Session) : Session :=
  if needsSignal seen s.paused then sendSignal s else s

theorem fillPass_of_late (h : deadline ≤ s.now + p.untilTest) :
    fillPass watch deadline pollSec s p = .left { s with now := s.now + p.untilTest } := by
  rw [fillPass]
  exact if_neg (not_lt.mpr h)

theorem amount_nonneg_iff (hpoll : 0 < pollSec) {reading : ℚ} :
    ¬ min pollSec (deadline - reading) < 0 ↔ reading ≤ deadline := by
  rw [not_lt, le_min_iff, sub_nonneg]
  exact and_iff_right hpoll.le

theorem fillPass_of_gap (hpoll : 0 < pollSec) (h : s.now + p.untilTest < deadline)
    (hgap : ¬ s.now + p.untilTest + p.untilSleep ≤ deadline) :
    fillPass watch deadline pollSec s p = .raised (asleep deadline pollSec s p) .valueError := by
  rw [← amount_nonneg_iff hpoll, not_not] at hgap
  rw [fillPass]
  dsimp only
  rw [if_pos h, if_pos hgap]
  rfl

theorem fillPass_of_slept (hpoll : 0 < pollSec) (h : s.now + p.untilTest < deadline)
    (hgap : s.now + p.untilTest + p.untilSleep ≤ deadline) :
    fillPass watch deadline pollSec s p = react (watch p) (awake deadline pollSec s p) p := by
  rw [← amount_nonneg_iff hpoll] at hgap
  rw [fillPass]
  dsimp only
  rw [if_pos h, if_neg hgap]
  rfl

theorem react_of_alive {seen : Option Bool}
    (h : needsSignal seen s.paused = true → ¬ (p.exit = .beforeSignal ∧ p.signalRaises = true)) :
    react seen s p = checkExit (afterSignal seen s) p := by
  rw [react, afterSignal]
  split_ifs with hneeds hdead
  · exact absurd hdead (h hneeds)
  · rfl
  · rfl

theorem fillPass_of_clean (hpoll : 0 < pollSec) (h : Clean watch deadline s p) :
    fillPass watch deadline pollSec s p =
      if s.now + p.untilTest < deadline then
        checkExit (afterSignal (watch p) (awake deadline pollSec s p)) p
      else .left { s with now := s.now + p.untilTest } := by
  split_ifs with hlate
  · obtain ⟨hgap, halive⟩ := h hlate
    rw [fillPass_of_slept hpoll hlate hgap]
    exact react_of_alive halive
  · exact fillPass_of_late (not_lt.mp hlate)

theorem fillPass_of_not_clean (hpoll : 0 < pollSec) (h : ¬ Clean watch deadline s p) :
    ∃ t e, fillPass watch deadline pollSec s p = .raised t e := by
  rw [Clean, Classical.not_imp] at h
  obtain ⟨hlate, hbad⟩ := h
  by_cases hgap : s.now + p.untilTest + p.untilSleep ≤ deadline
  · rw [not_and] at hbad
    obtain ⟨hneeds, hdead⟩ := Classical.not_imp.mp (hbad hgap)
    refine ⟨{ awake deadline pollSec s p with running := false }, .noSuchProcess, ?_⟩
    rw [fillPass_of_slept hpoll hlate hgap, react]
    exact (if_pos hneeds).trans (if_pos (not_not.mp hdead))
  · exact ⟨_, _, fillPass_of_gap hpoll hlate hgap⟩

theorem checkExit_eq_left (h : checkExit s p = .left t) : p.exit ≠ .none := by
  rw [checkExit] at h
  split_ifs at h with hexit
  exact hexit

theorem fillPass_left_iff (hpoll : 0 < pollSec) :
    (∃ t, fillPass watch deadline pollSec s p = .left t) ↔
      Clean watch deadline s p ∧ Leaves deadline s p := by
  by_cases hclean : Clean watch deadline s p
  · rw [and_iff_right hclean, fillPass_of_clean hpoll hclean, Leaves]
    split_ifs with hlate
    · rw [or_iff_right (not_le.mpr hlate)]
      constructor
      · rintro ⟨t, ht⟩
        exact checkExit_eq_left ht
      · intro hexit
        exact ⟨_, if_neg hexit⟩
    · exact iff_of_true ⟨_, rfl⟩ (Or.inl (not_lt.mp hlate))
  · obtain ⟨t, e, ht⟩ := fillPass_of_not_clean hpoll hclean
    refine iff_of_false ?_ fun h => hclean h.1
    rintro ⟨t', ht'⟩
    rw [ht] at ht'
    cases ht'

theorem fillStep_eq_some (h : fillStep watch deadline pollSec s p = some t) :
    fillPass watch deadline pollSec s p = .again t := by
  unfold fillStep at h
  split at h
  case h_1 t' ht =>
    cases h
    exact ht
  case h_2 => cases h
  case h_3 => cases h

theorem clean_of_step (hpoll : 0 < pollSec) (h : fillStep watch deadline pollSec s p = some t) :
    Clean watch deadline s p := by
  by_contra hclean
  obtain ⟨t', e, ht⟩ := fillPass_of_not_clean hpoll hclean
  rw [fillStep_eq_some h] at ht
  cases ht

end Pass

/-! ### The loop -/

section Loop

variable {watch : Pass → Option Bool} {deadline pollSec : ℚ} {s t : Session}

theorem fillLoop_of_exec {passes : List Pass}
    (h : Run.exec (fillStep watch deadline pollSec) s passes = some t) (rest : List Pass) :
    fillLoop watch deadline pollSec (passes ++ rest) s = fillLoop watch deadline pollSec rest t := by
  induction passes generalizing s with
  | nil =>
    cases h
    rfl
  | cons p passes ih =>
    obtain ⟨u, hu, h⟩ := Run.exec_cons_eq_some h
    rw [List.cons_append, fillLoop, fillStep_eq_some hu]
    exact ih h

theorem fillLoop_eq_some {passes : List Pass} {r : Session × Except FillError Unit}
    (h : fillLoop watch deadline pollSec passes s = some r) :
    ∃ before p rest u, passes = before ++ p :: rest ∧
      Run.exec (fillStep watch deadline pollSec) s before = some u ∧
      match r.2 with
      | .ok () => fillPass watch deadline pollSec u p = .left r.1
      | .error e => fillPass watch deadline pollSec u p = .raised r.1 e := by
  induction passes generalizing s with
  | nil => cases h
  | cons p passes ih =>
    rw [fillLoop] at h
    cases hpass : fillPass watch deadline pollSec s p with
    | again u =>
      rw [hpass] at h
      obtain ⟨before, q, rest, v, rfl, hexec, hend⟩ := ih h
      refine ⟨p :: before, q, rest, v, rfl, ?_, hend⟩
      have hstep : fillStep watch deadline pollSec s p = some u := by rw [fillStep, hpass]
      rw [Run.exec, hstep]
      exact hexec
    | left u =>
      rw [hpass] at h
      cases h
      exact ⟨[], p, passes, s, rfl, rfl, hpass⟩
    | raised u e =>
      rw [hpass] at h
      cases h
      exact ⟨[], p, passes, s, rfl, rfl, hpass⟩

def NoNegative (s : Session) : Prop := ∀ amount ∈ s.slept, 0 ≤ amount

theorem noNegative_checkExit {p : Pass} (h : NoNegative s)
    (ht : checkExit s p = .again t ∨ checkExit s p = .left t) : NoNegative t := by
  rw [checkExit] at ht
  split_ifs at ht
  · rcases ht with ht | ht <;> cases ht
    exact h
  · rcases ht with ht | ht <;> cases ht
    exact h

theorem slept_afterSignal (seen : Option Bool) (s : Session) :
    (afterSignal seen s).slept = s.slept := by
  rw [afterSignal, sendSignal]
  split_ifs <;> rfl

theorem noNegative_fillPass (hpoll : 0 < pollSec) {p : Pass} (h : NoNegative s)
    (ht : fillPass watch deadline pollSec s p = .again t ∨
      fillPass watch deadline pollSec s p = .left t) : NoNegative t := by
  by_cases hclean : Clean watch deadline s p
  · rw [fillPass_of_clean hpoll hclean] at ht
    split_ifs at ht with hlate
    · refine noNegative_checkExit ?_ ht
      intro amount hmem
      rw [slept_afterSignal] at hmem
      rcases List.mem_append.mp hmem with hold | hnew
      · exact h amount hold
      · rw [List.mem_singleton.mp hnew]
        exact not_lt.mp ((amount_nonneg_iff hpoll).mpr (hclean hlate).1)
    · rcases ht with ht | ht <;> cases ht
      exact h
  · obtain ⟨u, e, hu⟩ := fillPass_of_not_clean hpoll hclean
    rw [hu] at ht
    rcases ht with ht | ht <;> cases ht

theorem noNegative_exec (hpoll : 0 < pollSec) {passes : List Pass} (h : NoNegative s)
    (hexec : Run.exec (fillStep watch deadline pollSec) s passes = some t) : NoNegative t :=
  Run.exec_preserves
    (fun _ _ _ hs hstep => noNegative_fillPass hpoll hs (Or.inl (fillStep_eq_some hstep))) h hexec

end Loop

/-! ### The session -/

theorem stillRunning_eq_false (running : Bool) (ending : Ending) :
    stillRunning running ending = false := by
  cases running <;> cases ending <;> rfl

theorem firstPasses_eq_append {passes : ℕ → Pass} {n : ℕ} {before rest : List Pass} {p : Pass}
    (h : firstPasses passes n = before ++ p :: rest) :
    before = firstPasses passes before.length ∧ p = passes before.length := by
  have hlen : before.length < n := by
    have hlength := congrArg List.length h
    simp only [firstPasses, List.length_map, List.length_range, List.length_append,
      List.length_cons] at hlength
    omega
  constructor
  · have htake := congrArg (List.take before.length) h
    rw [List.take_left, firstPasses, ← List.map_take, List.take_range,
      Nat.min_eq_left hlen.le] at htake
    exact htake.symm
  · have hget := congrArg (fun xs => xs[before.length]?) h
    simp [firstPasses, hlen] at hget
    exact hget.symm

theorem firstPasses_succ (passes : ℕ → Pass) (n : ℕ) :
    firstPasses passes (n + 1) = firstPasses passes n ++ [passes n] := by
  rw [firstPasses, List.range_succ, List.map_append]
  rfl

section Session

variable {α : Type} {watch : Pass → Option Bool} {result : Config → Launch → Session → α}
  {c : Config} {l : Launch} {log : List LogLine} {passes : ℕ → Pass}

theorem closes_iff_endsClean :
    Closes (runFill watch result c l) log passes ↔ EndsClean watch c l passes := by
  constructor
  · rintro ⟨n, o, ho, hrecorded⟩
    obtain ⟨⟨t, r⟩, hloop, rfl⟩ := Option.map_eq_some_iff.mp ho
    obtain ⟨before, p, rest, u, hsplit, hexec, hend⟩ := fillLoop_eq_some hloop
    obtain ⟨hbefore, rfl⟩ := firstPasses_eq_append hsplit
    cases r with
    | error e =>
      obtain ⟨res, hres⟩ := hrecorded.returns
      cases hres
    | ok _ =>
      refine ⟨before.length, u, ?_, (fillPass_left_iff c.pollPositive).mp ⟨t, hend⟩⟩
      rw [reached, ← hbefore]
      exact hexec
  · rintro ⟨n, s, hs, hends⟩
    obtain ⟨t, ht⟩ := (fillPass_left_iff c.pollPositive).mpr hends
    have hloop : fillLoop watch (l.deadline c.durationSec) c.pollSec (firstPasses passes (n + 1))
        l.session = some (t, .ok ()) := by
      rw [firstPasses_succ, fillLoop_of_exec hs, fillLoop, ht]
    have h0 : NoNegative l.session := fun _ hmem => (by cases hmem)
    have ht0 : NoNegative t :=
      noNegative_fillPass c.pollPositive (noNegative_exec c.pollPositive h0 hs) (Or.inr ht)
    refine ⟨n + 1, _, by rw [runFill, hloop]; rfl, ?_⟩
    exact {
      neverNegative := ht0
      returns := ⟨_, rfl⟩
      notRunning := stillRunning_eq_false ..
      oneRow := ⟨_, rfl⟩ }

/-! ### Sleeps that last -/

theorem reached_succ (n : ℕ) : reached watch c l passes (n + 1) =
    (reached watch c l passes n).bind fun s =>
      fillStep watch (l.deadline c.durationSec) c.pollSec s (passes n) := by
  rw [reached, firstPasses_succ, Run.exec_append, reached]
  congr 1
  funext s
  exact Option.bind_fun_some _

theorem reached_none {m : ℕ} (h : reached watch c l passes m = none) (k : ℕ) :
    reached watch c l passes (m + k) = none := by
  induction k with
  | zero => exact h
  | succ k ih => rw [← Nat.add_assoc, reached_succ, ih, Option.bind_none]

theorem exists_last {n : ℕ} (h : reached watch c l passes n = none) :
    ∃ k s, reached watch c l passes k = some s ∧
      fillStep watch (l.deadline c.durationSec) c.pollSec s (passes k) = none := by
  induction n with
  | zero => cases h
  | succ n ih =>
    cases hn : reached watch c l passes n with
    | none => exact ih hn
    | some s =>
      rw [reached_succ, hn] at h
      exact ⟨n, s, hn, h⟩

theorem leaves_of_clean {s : Session} {p : Pass}
    (hclean : Clean watch (l.deadline c.durationSec) s p)
    (h : fillStep watch (l.deadline c.durationSec) c.pollSec s p = none) :
    Leaves (l.deadline c.durationSec) s p := by
  by_contra hstays
  rw [Leaves, not_or, not_le, not_not] at hstays
  have hpass := fillPass_of_clean c.pollPositive hclean
  rw [if_pos hstays.1, checkExit, if_pos hstays.2] at hpass
  rw [fillStep, hpass] at h
  cases h

theorem now_afterSignal (seen : Option Bool) (s : Session) : (afterSignal seen s).now = s.now := by
  rw [afterSignal, sendSignal]
  split_ifs <;> rfl

/-- A pass takes the poll interval, or goes on to the deadline. -/
theorem min_le_now {s t : Session} {p : Pass} {deadline : ℚ}
    (hstep : fillStep watch deadline c.pollSec s p = some t)
    (hsleep : min c.pollSec (deadline - (s.now + p.untilTest + p.untilSleep)) ≤ p.elapsed) :
    min deadline (s.now + c.pollSec) ≤ t.now := by
  have hpass := fillPass_of_clean c.pollPositive (clean_of_step c.pollPositive hstep)
  rw [fillStep_eq_some hstep] at hpass
  split_ifs at hpass
  rw [checkExit] at hpass
  split_ifs at hpass
  have hnow : t.now = s.now + p.untilTest + p.untilSleep + p.elapsed := by
    rw [Next.again.inj hpass, now_afterSignal]
    rfl
  have htest : (0 : ℚ) ≤ p.untilTest := NNRat.coe_nonneg _
  have hgap : (0 : ℚ) ≤ p.untilSleep := NNRat.coe_nonneg _
  rw [hnow]
  rcases min_le_iff.mp hsleep with hpoll | hrest
  · exact min_le_of_right_le (by linarith)
  · exact min_le_of_left_le (by linarith)

theorem min_le_reached (hsleep : SleepsLast watch c l passes) {n : ℕ} {s : Session}
    (h : reached watch c l passes n = some s) :
    min (l.deadline c.durationSec) (l.session.now + n * c.pollSec) ≤ s.now := by
  induction n generalizing s with
  | zero =>
    cases h
    exact min_le_of_right_le (by simp)
  | succ n ih =>
    rw [reached_succ] at h
    obtain ⟨t, ht, hstep⟩ := Option.bind_eq_some_iff.mp h
    have hnow := min_le_now hstep (hsleep n t ht)
    have hpoll := c.pollPositive
    rcases min_le_iff.mp hnow with hlate | hlater
    · exact min_le_of_left_le hlate
    · rcases min_le_iff.mp (ih ht) with hlate | hbefore
      · exact min_le_of_left_le (by linarith)
      · refine min_le_of_right_le ?_
        push_cast
        linarith

/-- Where sleeps last, the loop comes to a clean end exactly when every pass is clean. -/
theorem endsClean_iff_allClean (hsleep : SleepsLast watch c l passes) :
    EndsClean watch c l passes ↔ AllClean watch c l passes := by
  constructor
  · rintro ⟨n, s, hs, hclean, hleaves⟩ m t ht
    have hnone : reached watch c l passes (n + 1) = none := by
      obtain ⟨u, hu⟩ := (fillPass_left_iff c.pollPositive).mpr ⟨hclean, hleaves⟩
      rw [reached_succ, hs, Option.bind_some, fillStep, hu]
    rcases lt_trichotomy m n with hlt | rfl | hgt
    · -- the loop has gone on behind this pass
      cases hstep : fillStep watch (l.deadline c.durationSec) c.pollSec t (passes m) with
      | some u => exact clean_of_step c.pollPositive hstep
      | none =>
        have hstop : reached watch c l passes (m + 1) = none := by
          rw [reached_succ, ht, Option.bind_some, hstep]
        have hlater := reached_none hstop (n - (m + 1))
        rw [show m + 1 + (n - (m + 1)) = n by omega, hs] at hlater
        cases hlater
    · cases hs.symm.trans ht
      exact hclean
    · have hlater := reached_none hnone (m - (n + 1))
      rw [show n + 1 + (m - (n + 1)) = m by omega, ht] at hlater
      cases hlater
  · intro hall
    obtain ⟨n, hn⟩ := exists_nat_ge ((l.deadline c.durationSec - l.session.now) / c.pollSec)
    rw [div_le_iff₀ c.pollPositive] at hn
    cases hs : reached watch c l passes n with
    | some s =>
      have hnow := min_le_reached hsleep hs
      have hdeadline : l.deadline c.durationSec ≤ s.now := by
        rcases min_le_iff.mp hnow with h | h
        · exact h
        · linarith
      have htest : (0 : ℚ) ≤ (passes n).untilTest := NNRat.coe_nonneg _
      exact ⟨n, s, hs, hall n s hs, Or.inl (by linarith)⟩
    | none =>
      obtain ⟨k, s, hk, hstop⟩ := exists_last hs
      exact ⟨k, s, hk, hall k s hk, leaves_of_clean (hall k s hk) hstop⟩

end Session

/-- Both handlers close and record a session exactly when the loop comes to a clean end;
where sleeps last as long as asked, exactly when every pass is clean. -/
theorem sessions_recorded_iff (c : Config) (l : Launch) (log : List LogLine)
    (passes : ℕ → Pass) :
    (Closes (runGpuMiningFill c l) log passes ↔ EndsClean gpuWatch c l passes) ∧
    (Closes (runP2poolFill c l) log passes ↔ EndsClean p2poolWatch c l passes) ∧
    (SleepsLast gpuWatch c l passes →
      (Closes (runGpuMiningFill c l) log passes ↔ AllClean gpuWatch c l passes)) ∧
    (SleepsLast p2poolWatch c l passes →
      (Closes (runP2poolFill c l) log passes ↔ AllClean p2poolWatch c l passes)) :=
  ⟨closes_iff_endsClean, closes_iff_endsClean,
    fun h => closes_iff_endsClean.trans (endsClean_iff_allClean h),
    fun h => closes_iff_endsClean.trans (endsClean_iff_allClean h)⟩

def tenSeconds : Config := ⟨10, 4, by norm_num, "w", "RTX 4060", "pool.test", "wallet"⟩

def launched : Launch := ⟨0, 0, .killed, 0⟩

/-- The clock reads 9 in the loop test and 11 for the sleep. -/
def latePass : Pass := ⟨(9 : ℕ), (2 : ℕ), (4 : ℕ), [], .none, false⟩

theorem not_closes_late_reading :
    ¬ Closes (runGpuMiningFill tenSeconds launched) [] fun _ => latePass := by
  rintro ⟨n, o, ho, hrecorded⟩
  obtain ⟨result, hresult⟩ := hrecorded.returns
  cases n with
  | zero => cases ho
  | succ n =>
    have hfirst : firstPasses (fun _ => latePass) (n + 1) =
        latePass :: List.replicate n latePass := by
      rw [firstPasses, List.map_const', List.length_range, List.replicate_succ]
    have hraise : fillPass gpuWatch (launched.deadline 10) 4 launched.session latePass =
        .raised (asleep (launched.deadline 10) 4 launched.session latePass) .valueError := by
      decide +kernel
    obtain ⟨r, hr, rfl⟩ := Option.map_eq_some_iff.mp ho
    rw [hfirst, fillLoop, show tenSeconds.durationSec = 10 from rfl,
      show tenSeconds.pollSec = 4 from rfl, hraise] at hr
    cases hr
    cases hresult

end HadcdAgent.Mining
