import Mathlib.Analysis.SpecialFunctions.Integrals.Basic
import Mathlib.Tactic

/-!
# The trapezoid rule on a list of samples

Samples are times and values, in the order of their times; several may share a time. The
sum over the trapezoids is the integral of the curve through the samples, and its mean
lies between the bounds of the values.
-/

namespace Lib.Trapezoid

section Sums

variable {K : Type*} [Field K]

def area : List (K × K) → K
  | s :: t :: rest => (s.2 + t.2) / 2 * (t.1 - s.1) + area (t :: rest)
  | _ => 0

def span : List (K × K) → K
  | s :: t :: rest => t.1 - s.1 + span (t :: rest)
  | _ => 0

theorem area_append (xs : List (K × K)) (s : K × K) (ys : List (K × K)) :
    area (xs ++ s :: ys) = area (xs ++ [s]) + area (s :: ys) := by
  induction xs with
  | nil => simp [area]
  | cons x xs ih =>
    cases xs with
    | nil => simp [area]
    | cons x' xs =>
      simp only [List.cons_append, area] at ih ⊢
      rw [ih]
      ring

theorem span_append (xs : List (K × K)) (s : K × K) (ys : List (K × K)) :
    span (xs ++ s :: ys) = span (xs ++ [s]) + span (s :: ys) := by
  induction xs with
  | nil => simp [span]
  | cons x xs ih =>
    cases xs with
    | nil => simp [span]
    | cons x' xs =>
      simp only [List.cons_append, span] at ih ⊢
      rw [ih]
      ring

theorem span_cons (s : K × K) (rest : List (K × K)) :
    span (s :: rest) = ((s :: rest).getLast (List.cons_ne_nil _ _)).1 - s.1 := by
  induction rest generalizing s with
  | nil => simp [span]
  | cons t rest ih =>
    rw [span, ih t, List.getLast_cons (List.cons_ne_nil t rest)]
    ring

end Sums

section Order

variable {K : Type*} [LinearOrder K]

def InOrder (samples : List (K × K)) : Prop := samples.Pairwise fun s t => s.1 ≤ t.1

theorem InOrder.tail {s : K × K} {rest : List (K × K)} (h : InOrder (s :: rest)) : InOrder rest :=
  (List.pairwise_cons.mp h).2

theorem InOrder.sublist {xs ys : List (K × K)} (h : InOrder ys) (hs : xs.Sublist ys) :
    InOrder xs := List.Pairwise.sublist hs h

theorem InOrder.le {s t : K × K} {rest : List (K × K)} (h : InOrder (s :: t :: rest)) :
    s.1 ≤ t.1 := (List.pairwise_cons.mp h).1 t (List.mem_cons_self ..)

end Order

section Bounds

variable {K : Type*} [Field K] [LinearOrder K] [IsStrictOrderedRing K]

theorem span_nonneg {samples : List (K × K)} (h : InOrder samples) : 0 ≤ span samples := by
  induction samples with
  | nil => simp [span]
  | cons s rest ih =>
    cases rest with
    | nil => simp [span]
    | cons t rest =>
      rw [span]
      exact add_nonneg (sub_nonneg.mpr h.le) (ih h.tail)

theorem area_le {samples : List (K × K)} (h : InOrder samples) {hi : K}
    (hhi : ∀ s ∈ samples, s.2 ≤ hi) : area samples ≤ hi * span samples := by
  induction samples with
  | nil => simp [area, span]
  | cons s rest ih =>
    cases rest with
    | nil => simp [area, span]
    | cons t rest =>
      have htail := ih h.tail fun u hu => hhi u (List.mem_cons_of_mem s hu)
      have hs : s.2 ≤ hi := hhi s (List.mem_cons_self ..)
      have ht : t.2 ≤ hi := hhi t (List.mem_cons_of_mem s (List.mem_cons_self ..))
      have hmean : (s.2 + t.2) / 2 ≤ hi := by linarith
      have hdt : 0 ≤ t.1 - s.1 := sub_nonneg.mpr h.le
      rw [area, span, mul_add]
      exact add_le_add (mul_le_mul_of_nonneg_right hmean hdt) htail

theorem le_area {samples : List (K × K)} (h : InOrder samples) {lo : K}
    (hlo : ∀ s ∈ samples, lo ≤ s.2) : lo * span samples ≤ area samples := by
  induction samples with
  | nil => simp [area, span]
  | cons s rest ih =>
    cases rest with
    | nil => simp [area, span]
    | cons t rest =>
      have htail := ih h.tail fun u hu => hlo u (List.mem_cons_of_mem s hu)
      have hs : lo ≤ s.2 := hlo s (List.mem_cons_self ..)
      have ht : lo ≤ t.2 := hlo t (List.mem_cons_of_mem s (List.mem_cons_self ..))
      have hmean : lo ≤ (s.2 + t.2) / 2 := by linarith
      have hdt : 0 ≤ t.1 - s.1 := sub_nonneg.mpr h.le
      rw [area, span, mul_add]
      exact add_le_add (mul_le_mul_of_nonneg_right hmean hdt) htail

theorem area_eq_zero {samples : List (K × K)} (h : InOrder samples) (hspan : span samples = 0) :
    area samples = 0 := by
  induction samples with
  | nil => rfl
  | cons s rest ih =>
    cases rest with
    | nil => rfl
    | cons t rest =>
      have hdt : 0 ≤ t.1 - s.1 := sub_nonneg.mpr h.le
      have htail : 0 ≤ span (t :: rest) := span_nonneg h.tail
      rw [span] at hspan
      have hzero : t.1 - s.1 = 0 := by linarith
      rw [area, hzero, mul_zero, zero_add]
      exact ih h.tail (by linarith)

end Bounds

section Integral

open MeasureTheory

/-- The straight line through two samples. -/
noncomputable def line (s t : ℝ × ℝ) (x : ℝ) : ℝ := s.2 + (t.2 - s.2) / (t.1 - s.1) * (x - s.1)

/-- The piecewise linear curve through the samples. -/
noncomputable def curve : List (ℝ × ℝ) → ℝ → ℝ
  | s :: t :: rest, x => if x ≤ t.1 then line s t x else curve (t :: rest) x
  | [s], _ => s.2
  | [], _ => 0

theorem continuous_line (s t : ℝ × ℝ) : Continuous (line s t) := by
  unfold line
  fun_prop

theorem integral_line (s t : ℝ × ℝ) :
    ∫ x in s.1..t.1, line s t x = (s.2 + t.2) / 2 * (t.1 - s.1) := by
  have hconst : IntervalIntegrable (fun _ => s.2) volume s.1 t.1 := by simp
  have hslope : IntervalIntegrable (fun x => (t.2 - s.2) / (t.1 - s.1) * (x - s.1)) volume s.1 t.1 :=
    Continuous.intervalIntegrable (by fun_prop) _ _
  have hsum : ∫ x in s.1..t.1, line s t x =
      s.2 * (t.1 - s.1) + (t.2 - s.2) / (t.1 - s.1) * ((t.1 - s.1) ^ 2 / 2) := by
    unfold line
    rw [intervalIntegral.integral_add hconst hslope]
    simp only [intervalIntegral.integral_const, intervalIntegral.integral_const_mul, smul_eq_mul]
    have hid : ∫ x in s.1..t.1, (x - s.1) = (t.1 - s.1) ^ 2 / 2 := by
      simp
      ring
    rw [hid]
    ring
  rw [hsum]
  by_cases hdt : t.1 - s.1 = 0
  · rw [hdt]
    ring
  · field_simp
    ring

theorem eqOn_line {s t : ℝ × ℝ} (rest : List (ℝ × ℝ)) (h : s.1 ≤ t.1) :
    Set.EqOn (line s t) (curve (s :: t :: rest)) (Set.uIoc s.1 t.1) := by
  intro x hx
  rw [Set.uIoc_of_le h] at hx
  rw [curve, if_pos hx.2]

theorem eqOn_tail (s : ℝ × ℝ) {t : ℝ × ℝ} {rest : List (ℝ × ℝ)} {b : ℝ} (h : t.1 ≤ b) :
    Set.EqOn (curve (t :: rest)) (curve (s :: t :: rest)) (Set.uIoc t.1 b) := by
  intro x hx
  rw [Set.uIoc_of_le h] at hx
  rw [curve, if_neg (not_le.mpr hx.1)]

theorem integral_congr_uIoc {f g : ℝ → ℝ} {a b : ℝ} (h : Set.EqOn f g (Set.uIoc a b)) :
    ∫ x in a..b, f x = ∫ x in a..b, g x :=
  intervalIntegral.integral_congr_ae (Filter.Eventually.of_forall fun _ hx => h hx)

theorem le_getLast {t : ℝ × ℝ} {rest : List (ℝ × ℝ)} (h : InOrder (t :: rest)) :
    t.1 ≤ ((t :: rest).getLast (List.cons_ne_nil _ _)).1 := by
  have hspan := span_nonneg h
  rw [span_cons] at hspan
  linarith

theorem integrable_and_integral (s : ℝ × ℝ) {rest : List (ℝ × ℝ)} (h : InOrder (s :: rest)) :
    IntervalIntegrable (curve (s :: rest)) volume s.1
        ((s :: rest).getLast (List.cons_ne_nil _ _)).1 ∧
      ∫ x in s.1..((s :: rest).getLast (List.cons_ne_nil _ _)).1, curve (s :: rest) x =
        area (s :: rest) := by
  induction rest generalizing s with
  | nil => exact ⟨by simp, by simp [area]⟩
  | cons t rest ih =>
    obtain ⟨htail, hintegral⟩ := ih t h.tail
    have hle := le_getLast h.tail
    have hfirst : IntervalIntegrable (curve (s :: t :: rest)) volume s.1 t.1 :=
      ((continuous_line s t).intervalIntegrable s.1 t.1).congr (eqOn_line rest h.le)
    have hsecond := htail.congr (eqOn_tail s hle)
    rw [List.getLast_cons (List.cons_ne_nil t rest)]
    refine ⟨hfirst.trans hsecond, ?_⟩
    rw [← intervalIntegral.integral_add_adjacent_intervals hfirst hsecond,
      ← integral_congr_uIoc (eqOn_line rest h.le), integral_line,
      ← integral_congr_uIoc (eqOn_tail s hle), hintegral, area]

/-- The integral of the curve is the sum over the trapezoids. -/
theorem integral_curve (s : ℝ × ℝ) {rest : List (ℝ × ℝ)} (h : InOrder (s :: rest)) :
    ∫ x in s.1..((s :: rest).getLast (List.cons_ne_nil _ _)).1, curve (s :: rest) x =
      area (s :: rest) :=
  (integrable_and_integral s h).2

end Integral

end Lib.Trapezoid
