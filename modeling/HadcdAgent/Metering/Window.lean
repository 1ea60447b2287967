import HadcdAgent.Metering
import HadcdAgent.Lib.Trapezoid

/-!
# The rolling window of the power meter

`KasaPowerMeter.poll` and `average_watts_since` (`agent/kasa_power_meter.py`) over every
sequence of polls: what the average is of, and what has left the window by then.
-/

namespace HadcdAgent.Metering

open Lib Trapezoid

/-! ### The source -/

/-- `_WINDOW_MAX`. -/
@[irreducible] def windowMax : ℕ := 180

/-- `append` to a `deque` with that `maxlen`. -/
def push (samples : List (ℚ × ℚ)) (s : ℚ × ℚ) : List (ℚ × ℚ) :=
  (samples ++ [s]).drop (samples.length + 1 - windowMax)

/-- The clock and the reading of a poll, `none` when it fails or the plug tells none. -/
structure Poll where
  time : ℚ
  watts : Option ℚ
  deriving DecidableEq

def KasaPowerMeter.new : KasaPowerMeter := ⟨[], none⟩

def KasaPowerMeter.poll (m : KasaPowerMeter) (p : Poll) : KasaPowerMeter :=
  match p.watts with
  | none => m
  | some watts => ⟨push m.samples (p.time, watts), some watts⟩

def inWindow (m : KasaPowerMeter) (sinceMonotonic : ℚ) : List (ℚ × ℚ) :=
  m.samples.filter fun s => sinceMonotonic ≤ s.1

/-- `a / b`; `none` is the `ZeroDivisionError`. -/
def divide (a b : ℚ) : Option ℚ := if b = 0 then none else some (a / b)

/-- `average_watts_since`, `none` where it raises. -/
def averageOrRaise (m : KasaPowerMeter) (sinceMonotonic : ℚ) : Option (Option ℚ) :=
  match inWindow m sinceMonotonic with
  | [] => some m.lastWatts
  | [s] => some (some s.2)
  | s :: t :: rest =>
    let total := trapezoid (s :: t :: rest)
    if 0 < total.2 then (divide total.1 total.2).map some
    else some (some ((t :: rest).getLast (List.cons_ne_nil t rest)).2)

/-! ### Polls -/

/-- Polls with a clock that does not go back. -/
structure Polls where
  polls : List Poll
  ordered : polls.Pairwise fun p q => p.time ≤ q.time

def Poll.reading (p : Poll) : Option (ℚ × ℚ) := p.watts.map fun watts => (p.time, watts)

def readings (polls : List Poll) : List (ℚ × ℚ) := polls.filterMap Poll.reading

def Polls.meter (ps : Polls) : KasaPowerMeter := ps.polls.foldl KasaPowerMeter.poll .new

/-- The samples at or after `since` that polls have produced. -/
def Polls.samplesSince (ps : Polls) (since : ℚ) : List (ℚ × ℚ) :=
  (readings ps.polls).filter fun s => since ≤ s.1

/-- The meter holds the last samples, and the last reading. -/
structure Holds (m : KasaPowerMeter) (rs : List (ℚ × ℚ)) : Prop where
  samples : m.samples = rs.drop (rs.length - windowMax)
  lastWatts : m.lastWatts = rs.getLast?.map Prod.snd

theorem push_drop (rs : List (ℚ × ℚ)) (s : ℚ × ℚ) :
    push (rs.drop (rs.length - windowMax)) s =
      (rs ++ [s]).drop ((rs ++ [s]).length - windowMax) := by
  have hsplit : rs.drop (rs.length - windowMax) ++ [s] = (rs ++ [s]).drop (rs.length - windowMax) :=
    (List.drop_append_of_le_length (Nat.sub_le ..)).symm
  rw [push, hsplit, List.drop_drop, List.length_drop, List.length_append, List.length_singleton]
  congr 1
  omega

theorem holds_poll {m : KasaPowerMeter} {rs : List (ℚ × ℚ)} (h : Holds m rs) (p : Poll) :
    Holds (m.poll p) (rs ++ readings [p]) := by
  obtain ⟨time, watts⟩ := p
  cases watts with
  | none =>
    rw [show readings [⟨time, none⟩] = [] from rfl, List.append_nil]
    exact h
  | some watts =>
    refine ⟨?_, ?_⟩
    · change push m.samples (time, watts) = _
      rw [h.samples, push_drop]
      rfl
    · rw [show readings [⟨time, some watts⟩] = [(time, watts)] from rfl, List.getLast?_concat]
      rfl

theorem holds_foldl {m : KasaPowerMeter} {rs : List (ℚ × ℚ)} (h : Holds m rs) (polls : List Poll) :
    Holds (polls.foldl KasaPowerMeter.poll m) (rs ++ readings polls) := by
  induction polls generalizing m rs with
  | nil =>
    rw [show readings [] = [] from rfl, List.append_nil]
    exact h
  | cons p polls ih =>
    have hsplit : readings (p :: polls) = readings [p] ++ readings polls :=
      List.filterMap_append (l := [p])
    rw [hsplit, ← List.append_assoc]
    exact ih (holds_poll h p)

theorem holds_meter (ps : Polls) : Holds ps.meter (readings ps.polls) := by
  have h0 : Holds .new [] := ⟨by rw [List.drop_nil]; rfl, rfl⟩
  exact holds_foldl h0 ps.polls

theorem inOrder_readings (ps : Polls) : InOrder (readings ps.polls) := by
  refine List.Pairwise.filterMap Poll.reading ?_ ps.ordered
  intro p q hle s hs t ht
  obtain ⟨_, -, rfl⟩ := Option.map_eq_some_iff.mp hs
  obtain ⟨_, -, rfl⟩ := Option.map_eq_some_iff.mp ht
  exact hle

/-! ### The average by its window -/

theorem trapezoid_eq (samples : List (ℚ × ℚ)) :
    trapezoid samples = (area samples, span samples) := by
  induction samples with
  | nil => rfl
  | cons s rest ih =>
    cases rest with
    | nil => rfl
    | cons t rest => rw [trapezoid, ih, area, span]

section

variable {m : KasaPowerMeter} {since : ℚ}

theorem average_of_nil (h : inWindow m since = []) : averageWattsSince m since = m.lastWatts := by
  unfold inWindow at h
  rw [averageWattsSince, h]

theorem average_of_pos {window : List (ℚ × ℚ)} (hw : inWindow m since = window)
    (h : 0 < span window) : averageWattsSince m since = some (area window / span window) := by
  unfold inWindow at hw
  rw [averageWattsSince, hw]
  cases window with
  | nil => simp [span] at h
  | cons s rest =>
    cases rest with
    | nil => simp [span] at h
    | cons t rest =>
      dsimp only
      rw [trapezoid_eq, if_pos h]

theorem average_of_not_pos {window : List (ℚ × ℚ)} (hw : inWindow m since = window)
    (hne : window ≠ []) (h : ¬ 0 < span window) :
    averageWattsSince m since = some (window.getLast hne).2 := by
  unfold inWindow at hw
  rw [averageWattsSince, hw]
  cases window with
  | nil => exact absurd rfl hne
  | cons s rest =>
    cases rest with
    | nil => rfl
    | cons t rest =>
      dsimp only
      rw [trapezoid_eq, if_neg h]

theorem averageOrRaise_eq (m : KasaPowerMeter) (since : ℚ) :
    averageOrRaise m since = some (averageWattsSince m since) := by
  have hw : (m.samples.filter fun s => since ≤ s.1) = inWindow m since := rfl
  rw [averageOrRaise, averageWattsSince, hw]
  cases inWindow m since with
  | nil => rfl
  | cons s rest =>
    cases rest with
    | nil => rfl
    | cons t rest =>
      dsimp only
      split_ifs with hpos
      · rw [divide, if_neg (ne_of_gt hpos), Option.map_some]
      · rfl

end

/-! ### A true mean -/

/-- The watts that the average is made of. -/
def usedWatts (m : KasaPowerMeter) (since : ℚ) : List ℚ :=
  match inWindow m since with
  | [] => m.lastWatts.toList
  | s :: rest => (s :: rest).map Prod.snd

def toReal (samples : List (ℚ × ℚ)) : List (ℝ × ℝ) :=
  samples.map fun s => ((s.1 : ℝ), (s.2 : ℝ))

/-- The integral of the piecewise linear interpolation over the time it spans. -/
noncomputable def integralMean : List (ℚ × ℚ) → ℝ
  | [] => 0
  | s :: rest =>
    let last := ((s :: rest).getLast (List.cons_ne_nil _ _)).1
    (∫ t in (s.1 : ℝ)..last, curve (toReal (s :: rest)) t) / (last - s.1)

structure TrueMean (ps : Polls) (since : ℚ) : Prop where
  noZeroDivision : averageOrRaise ps.meter since = some (averageWattsSince ps.meter since)
  none_iff : averageWattsSince ps.meter since = none ↔ ∀ p ∈ ps.polls, p.watts = none
  between : ∀ v, averageWattsSince ps.meter since = some v →
    (usedWatts ps.meter since).minimum ≤ v ∧ (v : WithBot ℚ) ≤ (usedWatts ps.meter since).maximum
  integral : 0 < span (inWindow ps.meter since) → ∃ v : ℚ,
    averageWattsSince ps.meter since = some v ∧ (v : ℝ) = integralMean (inWindow ps.meter since)

theorem area_toReal (samples : List (ℚ × ℚ)) : area (toReal samples) = (area samples : ℚ) := by
  induction samples with
  | nil => simp [toReal, area]
  | cons s rest ih =>
    cases rest with
    | nil => simp [toReal, area]
    | cons t rest =>
      simp only [toReal, List.map_cons, area] at ih ⊢
      rw [ih]
      push_cast
      ring

theorem integralMean_eq {samples : List (ℚ × ℚ)} (h : InOrder samples) :
    integralMean samples = (area samples / span samples : ℚ) := by
  cases samples with
  | nil => simp [integralMean, area]
  | cons s rest =>
    have horder : InOrder (toReal (s :: rest)) :=
      List.Pairwise.map _ (fun _ _ hab => Rat.cast_le.mpr hab) h
    have hlast : ((toReal (s :: rest)).getLast (List.cons_ne_nil _ _)).1 =
        (((s :: rest).getLast (List.cons_ne_nil _ _)).1 : ℝ) := by
      have hmap := List.getLast_map (f := fun s : ℚ × ℚ => ((s.1 : ℝ), (s.2 : ℝ)))
        (l := s :: rest) (List.cons_ne_nil _ _)
      exact congrArg Prod.fst hmap
    have hintegral := integral_curve _ horder
    rw [integralMean, span_cons, Rat.cast_div, Rat.cast_sub, ← area_toReal, ← hlast]
    exact congrArg (· / _) hintegral

theorem inOrder_inWindow (ps : Polls) (since : ℚ) : InOrder (inWindow ps.meter since) := by
  refine (inOrder_readings ps).sublist ?_
  rw [inWindow, (holds_meter ps).samples]
  exact List.filter_sublist.trans (List.drop_sublist _ _)

theorem minimum_le_of_forall {watts : List ℚ} (hne : watts ≠ []) {v : ℚ}
    (h : ∀ lo, (∀ w ∈ watts, lo ≤ w) → lo ≤ v) : watts.minimum ≤ v := by
  obtain ⟨lo, hlo⟩ := WithTop.ne_top_iff_exists.mp (List.minimum_ne_top_of_ne_nil hne)
  rw [← hlo, WithTop.coe_le_coe]
  apply h
  intro w hw
  rw [← WithTop.coe_le_coe, hlo]
  exact List.minimum_le_of_mem' hw

theorem le_maximum_of_forall {watts : List ℚ} (hne : watts ≠ []) {v : ℚ}
    (h : ∀ hi, (∀ w ∈ watts, w ≤ hi) → v ≤ hi) : (v : WithBot ℚ) ≤ watts.maximum := by
  obtain ⟨hi, hhi⟩ := WithBot.ne_bot_iff_exists.mp (List.maximum_ne_bot_of_ne_nil hne)
  rw [← hhi, WithBot.coe_le_coe]
  apply h
  intro w hw
  rw [← WithBot.coe_le_coe, hhi]
  exact List.le_maximum_of_mem' hw

theorem average_between (ps : Polls) (since : ℚ) {v : ℚ}
    (h : averageWattsSince ps.meter since = some v) :
    usedWatts ps.meter since ≠ [] ∧
      (∀ lo, (∀ w ∈ usedWatts ps.meter since, lo ≤ w) → lo ≤ v) ∧
      ∀ hi, (∀ w ∈ usedWatts ps.meter since, w ≤ hi) → v ≤ hi := by
  have horder := inOrder_inWindow ps since
  cases hw : inWindow ps.meter since with
  | nil =>
    rw [average_of_nil hw] at h
    rw [usedWatts, hw, h]
    simp
  | cons s rest =>
    have hused : usedWatts ps.meter since = (s :: rest).map Prod.snd := by rw [usedWatts, hw]
    rw [hw] at horder
    rw [hused]
    refine ⟨by simp, fun lo hlo => ?_, fun hi hhi => ?_⟩
    all_goals by_cases hpos : 0 < span (s :: rest)
    · rw [average_of_pos hw hpos] at h
      cases h
      rw [le_div_iff₀ hpos]
      exact le_area horder fun t ht => hlo t.2 (List.mem_map_of_mem ht)
    · rw [average_of_not_pos hw (List.cons_ne_nil s rest) hpos] at h
      cases h
      exact hlo _ (List.mem_map_of_mem (List.getLast_mem _))
    · rw [average_of_pos hw hpos] at h
      cases h
      rw [div_le_iff₀ hpos]
      exact area_le horder fun t ht => hhi t.2 (List.mem_map_of_mem ht)
    · rw [average_of_not_pos hw (List.cons_ne_nil s rest) hpos] at h
      cases h
      exact hhi _ (List.mem_map_of_mem (List.getLast_mem _))

theorem readings_eq_nil_iff (polls : List Poll) :
    readings polls = [] ↔ ∀ p ∈ polls, p.watts = none := by
  simp [readings, Poll.reading, List.filterMap_eq_nil_iff]

theorem average_eq_none_iff (ps : Polls) (since : ℚ) :
    averageWattsSince ps.meter since = none ↔ readings ps.polls = [] := by
  have hholds := holds_meter ps
  cases hw : inWindow ps.meter since with
  | nil =>
    rw [average_of_nil hw, hholds.lastWatts, Option.map_eq_none_iff, List.getLast?_eq_none_iff]
  | cons s rest =>
    have hsome : averageWattsSince ps.meter since ≠ none := by
      by_cases hpos : 0 < span (s :: rest)
      · rw [average_of_pos hw hpos]
        exact Option.some_ne_none _
      · rw [average_of_not_pos hw (List.cons_ne_nil s rest) hpos]
        exact Option.some_ne_none _
    refine iff_of_false hsome fun hnil => ?_
    rw [inWindow, hholds.samples, hnil, List.drop_nil] at hw
    cases hw

/-- After every sequence of polls the average is a true mean. -/
theorem trueMean (ps : Polls) (since : ℚ) : TrueMean ps since where
  noZeroDivision := averageOrRaise_eq ps.meter since
  none_iff := (average_eq_none_iff ps since).trans (readings_eq_nil_iff ps.polls)
  between := by
    intro v h
    obtain ⟨hne, hlo, hhi⟩ := average_between ps since h
    exact ⟨minimum_le_of_forall hne hlo, le_maximum_of_forall hne hhi⟩
  integral := by
    intro hpos
    refine ⟨_, average_of_pos rfl hpos, ?_⟩
    rw [integralMean_eq (inOrder_inWindow ps since)]

/-! ### The whole task -/

def WholeTask (ps : Polls) (since : ℚ) : Prop :=
  0 < span (ps.samplesSince since) → averageWattsSince ps.meter since =
    some (area (ps.samplesSince since) / span (ps.samplesSince since))

/-- The curve up to the first sample held has the average of the rest; for samples held
of one instant that is the last of them. -/
def SameMean (lost held : List (ℚ × ℚ)) : Prop :=
  if 0 < span held then area lost * span held = area held * span lost
  else ∀ s ∈ held.getLast?, area lost = s.2 * span lost

/-- The window has lost no sample since then, or none that tells. -/
def Undistorted (ps : Polls) (since : ℚ) : Prop :=
  (ps.samplesSince since).length ≤ windowMax ∨
    SameMean ((ps.samplesSince since).take ((ps.samplesSince since).length - windowMax + 1))
      ((ps.samplesSince since).drop ((ps.samplesSince since).length - windowMax))

/-- Of samples in order, those at or after an instant are the last ones. -/
theorem filter_drop {samples : List (ℚ × ℚ)} (h : InOrder samples) (since : ℚ) (n : ℕ) :
    (samples.drop (samples.length - n)).filter (fun s => since ≤ s.1) =
      (samples.filter fun s => since ≤ s.1).drop
        ((samples.filter fun s => since ≤ s.1).length - n) := by
  induction samples with
  | nil => simp
  | cons s rest ih =>
    by_cases hs : since ≤ s.1
    · -- from here on all samples are
      have hall : (s :: rest).filter (fun s => since ≤ s.1) = s :: rest := by
        rw [List.filter_eq_self]
        intro t ht
        rcases List.mem_cons.mp ht with rfl | ht
        · exact decide_eq_true hs
        · exact decide_eq_true (hs.trans ((List.pairwise_cons.mp h).1 t ht))
      rw [hall, List.filter_eq_self]
      intro t ht
      have htest := List.filter_eq_self.mp hall t (List.mem_of_mem_drop ht)
      exact htest
    · have hskip : (s :: rest).filter (fun s => since ≤ s.1) =
          rest.filter fun s => since ≤ s.1 := List.filter_cons_of_neg (by simpa using hs)
      rw [hskip, ← ih h.tail]
      by_cases hn : (s :: rest).length ≤ n
      · have hlen : rest.length ≤ n := by
          rw [List.length_cons] at hn
          omega
        rw [Nat.sub_eq_zero_of_le hn, Nat.sub_eq_zero_of_le hlen, List.drop_zero, List.drop_zero,
          hskip]
      · have hlen : (s :: rest).length - n = rest.length - n + 1 := by
          rw [List.length_cons] at hn ⊢
          omega
        rw [hlen, List.drop_succ_cons]

theorem inWindow_meter (ps : Polls) (since : ℚ) :
    inWindow ps.meter since =
      (ps.samplesSince since).drop ((ps.samplesSince since).length - windowMax) := by
  rw [inWindow, (holds_meter ps).samples]
  exact filter_drop (inOrder_readings ps) since windowMax

theorem mean_eq_iff {lostArea lostSpan heldArea heldSpan : ℚ} (hpos : 0 < heldSpan)
    (hsum : 0 < lostSpan + heldSpan) :
    heldArea / heldSpan = (lostArea + heldArea) / (lostSpan + heldSpan) ↔
      lostArea * heldSpan = heldArea * lostSpan := by
  rw [div_eq_div_iff (ne_of_gt hpos) (ne_of_gt hsum)]
  constructor
  · intro heq
    linarith
  · intro heq
    linarith

theorem sameMean_iff {lost held : List (ℚ × ℚ)} {s : ℚ × ℚ} (horder : InOrder (lost ++ s :: held))
    {m : KasaPowerMeter} {since : ℚ} (hw : inWindow m since = s :: held) :
    (0 < span (lost ++ s :: held) → averageWattsSince m since =
      some (area (lost ++ s :: held) / span (lost ++ s :: held))) ↔
    SameMean (lost ++ [s]) (s :: held) := by
  have hlost : InOrder (lost ++ [s]) :=
    horder.sublist (List.Sublist.append_left (List.singleton_sublist.mpr (List.mem_cons_self ..)) _)
  have hheld : InOrder (s :: held) := horder.sublist (List.sublist_append_right ..)
  have hlost0 := span_nonneg hlost
  have hheld0 := span_nonneg hheld
  rw [area_append, span_append, SameMean]
  by_cases hpos : 0 < span (s :: held)
  · have hsum : 0 < span (lost ++ [s]) + span (s :: held) := by linarith
    rw [if_pos hpos, average_of_pos hw hpos, imp_iff_right hsum, Option.some.injEq,
      mean_eq_iff hpos hsum]
  · -- all that is held is of one instant
    have hzero : span (s :: held) = 0 := le_antisymm (not_lt.mp hpos) hheld0
    rw [if_neg hpos, average_of_not_pos hw (List.cons_ne_nil s held) hpos, hzero,
      area_eq_zero hheld hzero, add_zero, add_zero,
      List.getLast?_eq_some_getLast (List.cons_ne_nil s held)]
    simp only [Option.mem_def, Option.some.injEq, forall_eq']
    rcases eq_or_lt_of_le hlost0 with hnone | hsome
    · rw [← hnone, area_eq_zero hlost hnone.symm]
      simp
    · rw [imp_iff_right hsome, eq_div_iff (ne_of_gt hsome), eq_comm]

/-- The average is over the whole task exactly when the window has lost nothing that
tells. -/
theorem wholeTask_iff (ps : Polls) (since : ℚ) : WholeTask ps since ↔ Undistorted ps since := by
  have hw := inWindow_meter ps since
  rw [WholeTask, Undistorted]
  by_cases hlen : (ps.samplesSince since).length ≤ windowMax
  · rw [Nat.sub_eq_zero_of_le hlen, List.drop_zero] at hw
    exact iff_of_true (fun hpos => average_of_pos hw hpos) (Or.inl hlen)
  · rw [or_iff_right hlen]
    have hlt : (ps.samplesSince since).length - windowMax < (ps.samplesSince since).length := by
      have hmax : 0 < windowMax := by decide +kernel
      omega
    have hcons := List.drop_eq_getElem_cons hlt
    have hsplit : (ps.samplesSince since).take ((ps.samplesSince since).length - windowMax) ++
        (ps.samplesSince since).drop ((ps.samplesSince since).length - windowMax) =
          ps.samplesSince since := List.take_append_drop ..
    have horder : InOrder (ps.samplesSince since) := (inOrder_readings ps).sublist List.filter_sublist
    rw [hcons] at hw hsplit ⊢
    have htake := List.take_append_getElem hlt
    rw [← htake, ← sameMean_iff (by rwa [hsplit]) hw, hsplit]

/-- A load of 100 W at the start of half an hour that is idle otherwise. -/
def longTask : Polls where
  polls := (List.range 181).map fun i : ℕ => ⟨10 * (i : ℚ), some (if i = 0 then 100 else 0)⟩
  ordered := by
    refine List.pairwise_map.mpr (List.pairwise_lt_range.imp ?_)
    intro i j hij
    have hle : (i : ℚ) ≤ j := by exact_mod_cast hij.le
    dsimp only
    linarith

/-- The first of 181 samples has left the window, and the average is 0 W. -/
theorem not_wholeTask_longTask : ¬ WholeTask longTask 0 := by
  intro h
  have hspan : 0 < span (longTask.samplesSince 0) := by decide +kernel
  exact absurd (h hspan) (by decide +kernel)

end HadcdAgent.Metering
