import HadcdAgent.Lib.IndexRun
import HadcdAgent.Vast.LocalSchedule

/-!
# The windows of a forecast, exactly

`cold_windows`, `hot_windows` and their `_maybe_add` functions (`agent/weather.py`)
with the temperatures of a window, on exact rationals, and the window that
`build_vast_schedule` announces.
-/

namespace HadcdAgent.Vast

/-! ### Hourly times -/

def timeAt (times : List ℤ) (k : ℕ) : ℤ := times.getD k 0

/-- The times are one hour apart. -/
def Hourly (times : List ℤ) : Prop :=
  ∀ k, k + 1 < times.length → timeAt times (k + 1) = timeAt times k + oneHour

theorem Hourly.time_add {times : List ℤ} (h : Hourly times) {i d : ℕ}
    (hi : i + d < times.length) : timeAt times (i + d) = timeAt times i + d * oneHour := by
  induction d with
  | zero => simp
  | succ d ih =>
    have hstep := h (i + d) hi
    rw [← Nat.add_assoc, hstep, ih (by omega)]
    push_cast
    ring

theorem Hourly.time_sub {times : List ℤ} (h : Hourly times) {i j : ℕ} (hij : i ≤ j)
    (hj : j < times.length) : timeAt times j = timeAt times i + (j - i : ℕ) * oneHour := by
  obtain ⟨d, rfl⟩ := Nat.exists_eq_add_of_le hij
  rw [h.time_add hj, Nat.add_sub_cancel_left]

theorem Hourly.time_le {times : List ℤ} (h : Hourly times) {i j : ℕ} (hij : i ≤ j)
    (hj : j < times.length) : timeAt times i ≤ timeAt times j := by
  rw [h.time_sub hij hj]
  exact le_add_of_nonneg_right (mul_nonneg (Int.natCast_nonneg _) (by decide))

end HadcdAgent.Vast

namespace HadcdAgent.Weather

open Lib
open Vast (Hourly)

/-! ### The source -/

structure HourlyForecast where
  times : List ℤ
  tempsC : List ℚ
  sameLength : times.length = tempsC.length

def HourlyForecast.pairs (f : HourlyForecast) : List (ℤ × ℚ) := f.times.zip f.tempsC

/-- `ColdWindow` and `HotWindow`: `extremeC` is `min_temp_c` in the one and
`max_temp_c` in the other, `finish` the end. -/
structure TempWindow where
  start : ℤ
  finish : ℤ
  extremeC : ℚ
  meanC : ℚ

def TempWindow.durationHours (w : TempWindow) : ℚ := (w.finish - w.start : ℤ) / Vast.oneHour

/-- What the two `_maybe_add` functions share; `extreme` is `min` or `max`. -/
def maybeAdd (extreme : ℚ → ℚ → ℚ) (windows : List TempWindow) (pairs : List (ℤ × ℚ))
    (startIdx endIdx : ℕ) (minHours : ℚ) : List TempWindow :=
  let run := slice pairs startIdx endIdx
  let runTemps := run.map Prod.snd
  match run.head?, run.getLast? with
  | some first, some last =>
    let w : TempWindow := ⟨first.1, last.1 + Vast.oneHour,
      runTemps.tail.foldl extreme first.2, runTemps.sum / runTemps.length⟩
    if w.durationHours < minHours then windows else windows ++ [w]
  | _, _ => windows

def maybeAddWindow := maybeAdd min

def maybeAddHotWindow := maybeAdd max

/-- The loop of `cold_windows` and `hot_windows` and the window after it; `n` is
`len(pairs)`. -/
def windowsLoop (inside : ℚ → Bool) (add : List TempWindow → ℕ → ℕ → List TempWindow) (n : ℕ) :
    List TempWindow → Option ℕ → ℕ → List (ℤ × ℚ) → List TempWindow
  | windows, none, _, [] => windows
  | windows, some start, _, [] => add windows start n
  | windows, none, i, (_, temp) :: rest =>
    windowsLoop inside add n windows (if inside temp then some i else none) (i + 1) rest
  | windows, some start, i, (_, temp) :: rest =>
    if inside temp then windowsLoop inside add n windows (some start) (i + 1) rest
    else windowsLoop inside add n (add windows start i) none (i + 1) rest

def coldWindows (f : HourlyForecast) (thresholdC minHours : ℚ) : List TempWindow :=
  if f.times = [] then []
  else windowsLoop (fun temp => temp < thresholdC)
    (fun windows i j => maybeAddWindow windows f.pairs i j minHours) f.pairs.length [] none 0
    f.pairs

def hotWindows (f : HourlyForecast) (thresholdC minHours : ℚ) : List TempWindow :=
  if f.times = [] then []
  else windowsLoop (fun temp => thresholdC < temp)
    (fun windows i j => maybeAddHotWindow windows f.pairs i j minHours) f.pairs.length [] none 0
    f.pairs

/-! ### What the windows should be -/

/-- The time and the temperature at an index, 0 beyond the end. -/
def HourlyForecast.time (f : HourlyForecast) (k : ℕ) : ℤ := Vast.timeAt f.times k

def HourlyForecast.temp (f : HourlyForecast) (k : ℕ) : ℚ := f.tempsC.getD k 0

def HourlyForecast.hours (f : HourlyForecast) (i j : ℕ) : ℚ :=
  (f.time (j - 1) + Vast.oneHour - f.time i : ℤ) / Vast.oneHour

/-- A maximal run of hours with temperatures inside, at least `minHours` long. -/
def LongRun (inside : ℚ → Prop) (f : HourlyForecast) (minHours : ℚ) (i j : ℕ) : Prop :=
  IsRun (fun k => k < f.times.length ∧ inside (f.temp k)) i j ∧ minHours ≤ f.hours i j

structure IsWindowOf (extremal : Set ℚ → ℚ → Prop) (f : HourlyForecast) (r : ℕ × ℕ)
    (w : TempWindow) : Prop where
  start : w.start = f.time r.1
  finish : w.finish = f.time (r.2 - 1) + Vast.oneHour
  extreme : extremal (f.temp '' Set.Ico r.1 r.2) w.extremeC
  mean : w.meanC = (∑ k ∈ Finset.Ico r.1 r.2, f.temp k) / (r.2 - r.1 : ℕ)

/-- One window for each long run, in the order of the indices. -/
def ExactWindows (inside : ℚ → Prop) (extremal : Set ℚ → ℚ → Prop) (f : HourlyForecast)
    (minHours : ℚ) (windows : List TempWindow) : Prop :=
  ∃ rs : List (ℕ × ℕ), rs.Pairwise (fun r s => r.2 < s.1) ∧
    (∀ i j, (i, j) ∈ rs ↔ LongRun inside f minHours i j) ∧
    List.Forall₂ (IsWindowOf extremal f) rs windows

/-- In order, disjoint and an hour or more apart. -/
def Separated (windows : List TempWindow) : Prop :=
  (∀ w ∈ windows, w.start < w.finish) ∧
    windows.Pairwise fun v w => v.finish + Vast.oneHour ≤ w.start

/-! ### The windows of the scan -/

section Runs

variable {f : HourlyForecast} {i j : ℕ}

theorem getElem?_pairs (f : HourlyForecast) (k : ℕ) :
    f.pairs[k]? = if k < f.times.length then some (f.time k, f.temp k) else none := by
  have hlen := f.sameLength
  split_ifs with hk
  · have hk' : k < f.tempsC.length := hlen ▸ hk
    simp [HourlyForecast.pairs, HourlyForecast.time, Vast.timeAt, HourlyForecast.temp, hk, hk',
      List.getD_eq_getElem?_getD]
  · have hout : f.pairs.length ≤ k := by
      rw [HourlyForecast.pairs, List.length_zip]
      omega
    exact List.getElem?_eq_none hout

theorem slice_pairs (hj : j ≤ f.times.length) :
    slice f.pairs i j = (List.range' i (j - i)).map fun k => (f.time k, f.temp k) := by
  refine List.ext_getElem? fun k => ?_
  rw [getElem?_slice, List.getElem?_map]
  split_ifs with hk
  · rw [getElem?_pairs, if_pos (by omega), List.getElem?_range' hk, Nat.one_mul]
    rfl
  · rw [List.getElem?_eq_none (by rw [List.length_range']; omega)]
    rfl

def windowFor (extreme : ℚ → ℚ → ℚ) (f : HourlyForecast) (r : ℕ × ℕ) : TempWindow :=
  ⟨f.time r.1, f.time (r.2 - 1) + Vast.oneHour,
    ((List.range' (r.1 + 1) (r.2 - r.1 - 1)).map f.temp).foldl extreme (f.temp r.1),
    ((List.range' r.1 (r.2 - r.1)).map f.temp).sum / (r.2 - r.1 : ℕ)⟩

theorem maybeAdd_of_run (extreme : ℚ → ℚ → ℚ) (windows : List TempWindow) (minHours : ℚ)
    (hlt : i < j) (hj : j ≤ f.times.length) :
    maybeAdd extreme windows f.pairs i j minHours =
      windows ++ if f.hours i j < minHours then [] else [windowFor extreme f (i, j)] := by
  have hhead : (slice f.pairs i j).head? = some (f.time i, f.temp i) := by
    rw [head?_slice hlt, getElem?_pairs, if_pos (by omega)]
  have hlast : (slice f.pairs i j).getLast? = some (f.time (j - 1), f.temp (j - 1)) := by
    rw [getLast?_slice hlt (length_zip_of_eq f.sameLength ▸ hj), getElem?_pairs, if_pos (by omega)]
  have htemps : (slice f.pairs i j).map Prod.snd = (List.range' i (j - i)).map f.temp := by
    rw [slice_pairs hj, List.map_map]
    rfl
  have htail : ((List.range' i (j - i)).map f.temp).tail =
      (List.range' (i + 1) (j - i - 1)).map f.temp := by
    rw [← List.map_tail, List.tail_range']
  simp only [maybeAdd, hhead, hlast, htemps, htail, List.length_map, List.length_range']
  split_ifs with hshort hshort' hshort'
  · simp
  · exact absurd hshort hshort'
  · exact absurd hshort' hshort
  · rfl

/-- The loop adds the windows of the runs that the scan finds, in their order. -/
theorem windowsLoop_eq {inside : ℚ → Bool} {add : List TempWindow → ℕ → ℕ → List TempWindow}
    {n : ℕ} {g : ℕ × ℕ → List TempWindow}
    (hadd : ∀ windows a b, a < b → b ≤ n → add windows a b = windows ++ g (a, b))
    (rest : List (ℤ × ℚ)) (windows : List TempWindow) (start : Option ℕ) (i : ℕ)
    (hn : i + rest.length = n) (hstart : ∀ s, start = some s → s < i) :
    windowsLoop inside add n windows start i rest =
      windows ++ (scanRuns i start (rest.map fun h => inside h.2)).flatMap g := by
  induction rest generalizing windows start i with
  | nil =>
    cases start with
    | none => simp [windowsLoop, scanRuns]
    | some s =>
      have hn' : i = n := hn
      subst hn'
      rw [windowsLoop, hadd windows s i (hstart s rfl) le_rfl]
      simp [scanRuns]
  | cons h rest ih =>
    obtain ⟨time, temp⟩ := h
    have hn' : i + 1 + rest.length = n := by
      rw [List.length_cons] at hn
      omega
    cases start with
    | none =>
      rw [windowsLoop, List.map_cons, scanRuns]
      refine ih windows _ (i + 1) hn' fun s hs => ?_
      split_ifs at hs
      cases hs
      exact Nat.lt_succ_self _
    | some s =>
      have hs := hstart s rfl
      rw [windowsLoop, List.map_cons, scanRuns]
      split_ifs with hin
      · refine ih windows (some s) (i + 1) hn' fun s' hs' => ?_
        cases hs'
        exact Nat.lt_succ_of_lt hs
      · have hclosed : ∀ s', (none : Option ℕ) = some s' → s' < i + 1 := by
          intro s' hs'
          cases hs'
        rw [ih (add windows s i) none (i + 1) hn' hclosed, hadd windows s i hs (by omega),
          List.flatMap_cons, List.append_assoc]

end Runs

/-- The runs that the scan of the temperatures finds. -/
def tempRuns (inside : ℚ → Bool) (f : HourlyForecast) : List (ℕ × ℕ) :=
  runs (f.pairs.map fun h => inside h.2)

theorem mem_tempRuns_iff {inside : ℚ → Bool} {f : HourlyForecast} {i j : ℕ} :
    (i, j) ∈ tempRuns inside f ↔
      IsRun (fun k => k < f.times.length ∧ inside (f.temp k) = true) i j := by
  rw [tempRuns, mem_runs_iff]
  refine isRun_congr fun k => ?_
  rw [List.getElem?_map, getElem?_pairs]
  split_ifs with hk
  · simp [hk]
  · simp [hk]

theorem le_length_of_mem_tempRuns {inside : ℚ → Bool} {f : HourlyForecast} {i j : ℕ}
    (h : (i, j) ∈ tempRuns inside f) : i < j ∧ j ≤ f.times.length := by
  have hrun := mem_tempRuns_iff.mp h
  have hlast := hrun.last.1
  exact ⟨hrun.lt, by have hlt := hrun.lt; omega⟩

theorem windowsLoop_pairs (inside : ℚ → Bool) (extreme : ℚ → ℚ → ℚ) (f : HourlyForecast)
    (minHours : ℚ) :
    windowsLoop inside (fun windows i j => maybeAdd extreme windows f.pairs i j minHours)
        f.pairs.length [] none 0 f.pairs =
      ((tempRuns inside f).filter fun r => minHours ≤ f.hours r.1 r.2).map
        (windowFor extreme f) := by
  have hlength : f.pairs.length = f.times.length := length_zip_of_eq f.sameLength
  rw [windowsLoop_eq (g := fun r =>
      if f.hours r.1 r.2 < minHours then [] else [windowFor extreme f r])
    (fun windows a b hlt hb => maybeAdd_of_run extreme windows minHours hlt (hlength ▸ hb))
    f.pairs [] none 0 (Nat.zero_add _) fun _ hs => absurd hs.symm (Option.some_ne_none _)]
  rw [List.nil_append]
  change (tempRuns inside f).flatMap _ = _
  induction tempRuns inside f with
  | nil => rfl
  | cons r rs ih =>
    rw [List.flatMap_cons, ih, List.filter_cons]
    by_cases hr : f.hours r.1 r.2 < minHours
    · rw [if_pos hr, if_neg (by simpa using hr)]
      rfl
    · rw [if_neg hr, if_pos (by simpa using hr)]
      rfl

theorem coldWindows_eq (f : HourlyForecast) (thresholdC minHours : ℚ) :
    coldWindows f thresholdC minHours =
      ((tempRuns (fun temp => temp < thresholdC) f).filter
        fun r => minHours ≤ f.hours r.1 r.2).map (windowFor min f) := by
  rw [coldWindows]
  split_ifs with hempty
  · simp [tempRuns, HourlyForecast.pairs, hempty, runs, scanRuns]
  · exact windowsLoop_pairs _ min f minHours

theorem hotWindows_eq (f : HourlyForecast) (thresholdC minHours : ℚ) :
    hotWindows f thresholdC minHours =
      ((tempRuns (fun temp => thresholdC < temp) f).filter
        fun r => minHours ≤ f.hours r.1 r.2).map (windowFor max f) := by
  rw [hotWindows]
  split_ifs with hempty
  · simp [tempRuns, HourlyForecast.pairs, hempty, runs, scanRuns]
  · exact windowsLoop_pairs _ max f minHours

/-! ### The temperatures of a window -/

theorem isLeast_foldl_min {α : Type*} [LinearOrder α] (x : α) (xs : List α) :
    IsLeast {y | y ∈ x :: xs} (xs.foldl min x) := by
  induction xs generalizing x with
  | nil =>
    refine ⟨List.mem_singleton_self x, fun y hy => ?_⟩
    rw [List.mem_singleton.mp hy]
    exact le_rfl
  | cons z xs ih =>
    obtain ⟨hmem, hle⟩ := ih (min x z)
    rw [List.foldl_cons]
    constructor
    · rcases List.mem_cons.mp hmem with heq | hmem
      · rw [heq]
        rcases min_choice x z with h | h
        · rw [h]
          exact List.mem_cons_self ..
        · rw [h]
          exact List.mem_cons_of_mem x (List.mem_cons_self ..)
      · exact List.mem_cons_of_mem x (List.mem_cons_of_mem z hmem)
    · intro y hy
      have hfirst := hle (List.mem_cons_self ..)
      rcases List.mem_cons.mp hy with rfl | hy
      · exact hfirst.trans (min_le_left _ _)
      · rcases List.mem_cons.mp hy with rfl | hy
        · exact hfirst.trans (min_le_right _ _)
        · exact hle (List.mem_cons_of_mem _ hy)

theorem isGreatest_foldl_max {α : Type*} [LinearOrder α] (x : α) (xs : List α) :
    IsGreatest {y | y ∈ x :: xs} (xs.foldl max x) :=
  isLeast_foldl_min (α := αᵒᵈ) x xs

theorem temps_of_run (f : HourlyForecast) {i j : ℕ} (hlt : i < j) :
    {y | y ∈ f.temp i :: (List.range' (i + 1) (j - i - 1)).map f.temp} = f.temp '' Set.Ico i j := by
  ext y
  simp only [Set.mem_ofPred_eq, List.mem_cons, List.mem_map, List.mem_range'_1, Set.mem_image,
    Set.mem_Ico]
  constructor
  · rintro (rfl | ⟨k, hk, rfl⟩)
    · exact ⟨i, ⟨le_rfl, hlt⟩, rfl⟩
    · exact ⟨k, by omega, rfl⟩
  · rintro ⟨k, hk, rfl⟩
    rcases Nat.eq_or_lt_of_le hk.1 with rfl | hlt'
    · exact Or.inl rfl
    · exact Or.inr ⟨k, by omega, rfl⟩

theorem sum_range'_temp (f : HourlyForecast) (i j : ℕ) :
    ((List.range' i (j - i)).map f.temp).sum = ∑ k ∈ Finset.Ico i j, f.temp k := rfl

theorem isWindowOf_windowFor {extreme : ℚ → ℚ → ℚ} {extremal : Set ℚ → ℚ → Prop}
    (hextreme : ∀ x xs, extremal {y | y ∈ x :: xs} (xs.foldl extreme x)) (f : HourlyForecast)
    {r : ℕ × ℕ} (hlt : r.1 < r.2) : IsWindowOf extremal f r (windowFor extreme f r) where
  start := rfl
  finish := rfl
  extreme := by
    rw [← temps_of_run f hlt]
    exact hextreme _ _
  mean := by rw [windowFor, sum_range'_temp]

theorem exactWindows_of_eq {inside : ℚ → Prop} [DecidablePred inside] {extreme : ℚ → ℚ → ℚ}
    {extremal : Set ℚ → ℚ → Prop}
    (hextreme : ∀ x xs, extremal {y | y ∈ x :: xs} (xs.foldl extreme x)) {f : HourlyForecast}
    {minHours : ℚ} {windows : List TempWindow}
    (h : windows = ((tempRuns (fun temp => inside temp) f).filter
      fun r => minHours ≤ f.hours r.1 r.2).map (windowFor extreme f)) :
    ExactWindows inside extremal f minHours windows := by
  refine ⟨(tempRuns (fun temp => inside temp) f).filter fun r => minHours ≤ f.hours r.1 r.2,
    ?_, ?_, ?_⟩
  · exact (pairwise_scanRuns 0 none _).filter _
  · intro i j
    rw [List.mem_filter, mem_tempRuns_iff, LongRun]
    simp only [decide_eq_true_eq]
  · rw [h, List.forall₂_map_right_iff, List.forall₂_same]
    intro r hr
    have hlt := (le_length_of_mem_tempRuns (List.mem_filter.mp hr).1).1
    exact isWindowOf_windowFor hextreme f hlt

theorem exactWindows_coldWindows (f : HourlyForecast) (thresholdC minHours : ℚ) :
    ExactWindows (· < thresholdC) IsLeast f minHours (coldWindows f thresholdC minHours) :=
  exactWindows_of_eq isLeast_foldl_min (coldWindows_eq f thresholdC minHours)

theorem exactWindows_hotWindows (f : HourlyForecast) (thresholdC minHours : ℚ) :
    ExactWindows (thresholdC < ·) IsGreatest f minHours (hotWindows f thresholdC minHours) :=
  exactWindows_of_eq isGreatest_foldl_max (hotWindows_eq f thresholdC minHours)

/-! ### Windows of hourly times -/

section Separated

variable {inside : ℚ → Prop} {extremal : Set ℚ → ℚ → Prop} {f : HourlyForecast} {minHours : ℚ}
  {rs : List (ℕ × ℕ)} {windows : List TempWindow}

theorem exists_run_of_mem (h : List.Forall₂ (IsWindowOf extremal f) rs windows) {w : TempWindow}
    (hw : w ∈ windows) : ∃ r ∈ rs, IsWindowOf extremal f r w := by
  induction h with
  | nil => cases hw
  | cons hrv _ ih =>
    rcases List.mem_cons.mp hw with rfl | hw
    · exact ⟨_, List.mem_cons_self .., hrv⟩
    · obtain ⟨r, hr, hrw⟩ := ih hw
      exact ⟨r, List.mem_cons_of_mem _ hr, hrw⟩

theorem start_lt_finish (hf : Hourly f.times) {r : ℕ × ℕ} {w : TempWindow} (hlt : r.1 < r.2)
    (hle : r.2 ≤ f.times.length) (hw : IsWindowOf extremal f r w) : w.start < w.finish := by
  have hle : f.time r.1 ≤ f.time (r.2 - 1) :=
    hf.time_le (Nat.le_sub_one_of_lt hlt) (by omega)
  have hhour : (0 : ℤ) < Vast.oneHour := by decide
  rw [hw.start, hw.finish]
  omega

theorem finish_le_start (hf : Hourly f.times) {r s : ℕ × ℕ} {v w : TempWindow} (hlt : r.1 < r.2)
    (hrs : r.2 < s.1) (hs : s.1 < f.times.length) (hv : IsWindowOf extremal f r v)
    (hw : IsWindowOf extremal f s w) : v.finish + Vast.oneHour ≤ w.start := by
  have hafter : f.time (r.2 - 1 + 2) ≤ f.time s.1 := hf.time_le (by omega) hs
  have htwo : f.time (r.2 - 1 + 2) = f.time (r.2 - 1) + (2 : ℕ) * Vast.oneHour :=
    hf.time_add (by omega)
  rw [hv.finish, hw.start]
  push_cast at htwo
  omega

theorem ExactWindows.separated (hf : Hourly f.times)
    (h : ExactWindows inside extremal f minHours windows) : Separated windows := by
  obtain ⟨rs, hsorted, hruns, hwindows⟩ := h
  have hvalid : ∀ r ∈ rs, r.1 < r.2 ∧ r.2 ≤ f.times.length := by
    rintro ⟨i, j⟩ hr
    have hrun := ((hruns i j).mp hr).1
    have hlast := hrun.last.1
    have hlt := hrun.lt
    exact ⟨hlt, by dsimp only; omega⟩
  clear hruns
  induction hwindows with
  | nil => exact ⟨fun _ hw => (nomatch hw), List.Pairwise.nil⟩
  | @cons r w rs windows hrw hrest ih =>
    obtain ⟨hbefore, hsorted⟩ := List.pairwise_cons.mp hsorted
    obtain ⟨hr, hvalid⟩ := List.forall_mem_cons.mp hvalid
    obtain ⟨hlt, happart⟩ := ih hsorted hvalid
    refine ⟨List.forall_mem_cons.mpr ⟨start_lt_finish hf hr.1 hr.2 hrw, hlt⟩,
      List.pairwise_cons.mpr ⟨fun v hv => ?_, happart⟩⟩
    obtain ⟨s, hs, hsv⟩ := exists_run_of_mem hrest hv
    have hsvalid := hvalid s hs
    exact finish_le_start hf hr.1 (hbefore s hs) (by omega) hrw hsv

end Separated

end HadcdAgent.Weather
