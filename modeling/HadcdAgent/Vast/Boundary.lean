import HadcdAgent.Vast.Windows

/-!
# The schedule at the edges of an hour

`build_vast_schedule` (`agent/weather.py`) tests a window with its end included; the
hours of a forecast are half-open.
-/

namespace HadcdAgent.Vast

open Lib

/-! ### The windows as runs of indices -/

def HourlyForecast.time (f : HourlyForecast) (k : ℕ) : ℤ := timeAt f.times k

def HourlyForecast.window (f : HourlyForecast) (i j : ℕ) : Window :=
  ⟨f.time i, f.time (j - 1) + oneHour⟩

/-- A maximal run of hours inside that lasts `minHours`. -/
def LongRun (inside : PyFloat → Bool) (minHours : PyFloat) (f : HourlyForecast) (i j : ℕ) : Prop :=
  IsRun (HoldsAt (fun h => inside h.2) f.pairs) i j ∧
    (PyFloat.fin (f.window i j).durationHours).lt minHours = false

def NoListRun (f : HourlyForecast) (b : Band) (i j : ℕ) : Prop :=
  LongRun (fun temp => temp.lt b.thresholdC) b.minHours f i j ∨
    ∃ hot, b.hotThresholdC = some hot ∧ LongRun (fun temp => hot.lt temp) b.minHours f i j

theorem fst_getElem?_pairs {f : HourlyForecast} {k : ℕ} (hk : k < f.times.length) :
    (f.pairs[k]?).map Prod.fst = some (f.time k) := by
  have htemp : k < f.tempsC.length := f.sameLength ▸ hk
  simp [HourlyForecast.pairs, HourlyForecast.time, timeAt, hk, htemp, List.getD_eq_getElem?_getD]

theorem isWindow_iff {inside : PyFloat → Bool} {minHours : PyFloat} {f : HourlyForecast}
    {w : Window} :
    IsWindow inside minHours f.pairs w ↔
      ∃ i j, LongRun inside minHours f i j ∧ f.window i j = w := by
  have hends : ∀ i j, IsRun (HoldsAt (fun h => inside h.2) f.pairs) i j →
      (slice f.pairs i j).head?.map Prod.fst = some (f.window i j).start ∧
      (slice f.pairs i j).getLast?.map (fun h => h.1 + oneHour) = some (f.window i j).finish := by
    intro i j hrun
    have hlt := hrun.lt
    have hj : j ≤ f.times.length := length_zip_of_eq f.sameLength ▸ hrun.le_length
    have hlast : (f.pairs[j - 1]?).map Prod.fst = some (f.time (j - 1)) :=
      fst_getElem?_pairs (by omega)
    rw [head?_slice hlt, getLast?_slice hlt (length_zip_of_eq f.sameLength ▸ hj)]
    refine ⟨fst_getElem?_pairs (by omega), ?_⟩
    obtain ⟨hour, hhour, htime⟩ := Option.map_eq_some_iff.mp hlast
    rw [hhour, Option.map_some, htime]
    rfl
  constructor
  · rintro ⟨run, hmax, hstart, hfinish, hlong⟩
    obtain ⟨i, j, hrun, rfl⟩ := maximalRun_iff.mp hmax
    obtain ⟨hs, hf⟩ := hends i j hrun
    have hw : f.window i j = w := by
      rw [hs] at hstart
      rw [hf] at hfinish
      have h1 : (f.window i j).start = w.start := Option.some.inj hstart
      have h2 : (f.window i j).finish = w.finish := Option.some.inj hfinish
      cases w with
      | mk start finish =>
        cases h1
        cases h2
        rfl
    exact ⟨i, j, ⟨hrun, hw ▸ hlong⟩, hw⟩
  · rintro ⟨i, j, ⟨hrun, hlong⟩, rfl⟩
    obtain ⟨hs, hf⟩ := hends i j hrun
    exact ⟨slice f.pairs i j, maximalRun_iff.mpr ⟨i, j, hrun, rfl⟩, hs, hf, hlong⟩

theorem noListWindow_iff {f : HourlyForecast} {b : Band} {w : Window} :
    NoListWindow f b w ↔ ∃ i j, NoListRun f b i j ∧ f.window i j = w := by
  simp only [NoListWindow, NoListRun, isWindow_iff, or_and_right, exists_or]
  refine or_congr_right ?_
  constructor
  · rintro ⟨hot, hb, i, j, hrun, hw⟩
    exact ⟨i, j, ⟨hot, hb, hrun⟩, hw⟩
  · rintro ⟨i, j, ⟨hot, hb, hrun⟩, hw⟩
    exact ⟨hot, hb, i, j, hrun, hw⟩

theorem NoListRun.valid {f : HourlyForecast} {b : Band} {i j : ℕ} (h : NoListRun f b i j) :
    i < j ∧ j ≤ f.times.length := by
  rw [← length_zip_of_eq f.sameLength]
  rcases h with ⟨hrun, -⟩ | ⟨hot, -, hrun⟩
  · exact ⟨hrun.lt, hrun.le_length⟩
  · exact ⟨hrun.1.lt, hrun.1.le_length⟩

/-! ### The hour of an instant -/

def InHour (f : HourlyForecast) (k : ℕ) (now : ℤ) : Prop :=
  k < f.times.length ∧ f.time k ≤ now ∧ now < f.time k + oneHour

def InRun (f : HourlyForecast) (b : Band) (k : ℕ) : Prop :=
  ∃ i j, NoListRun f b i j ∧ i ≤ k ∧ k < j

/-- `now` is the instant at which a long run ends and an hour outside of them begins. -/
def AtEdge (f : HourlyForecast) (b : Band) (now : ℤ) : Prop :=
  ∃ i k, NoListRun f b i k ∧ k < f.times.length ∧ now = f.time k ∧ ¬ InRun f b k

section Hour

variable {f : HourlyForecast} {b : Band} {k : ℕ} {now : ℤ}

theorem InHour.le_iff (hf : Hourly f.times) (hk : InHour f k now) {i : ℕ}
    (hi : i < f.times.length) : f.time i ≤ now ↔ i ≤ k := by
  obtain ⟨hklen, hle, hlt⟩ := hk
  constructor
  · intro hstart
    by_contra hnot
    have hnext : f.time (k + 1) = f.time k + oneHour := hf k (by omega)
    have hafter : f.time (k + 1) ≤ f.time i := hf.time_le (by omega) hi
    omega
  · intro hik
    have hbefore : f.time i ≤ f.time k := hf.time_le hik hklen
    omega

theorem InHour.unique (hf : Hourly f.times) {k' : ℕ} (hk : InHour f k now)
    (hk' : InHour f k' now) : k = k' :=
  le_antisymm ((hk'.le_iff hf hk.1).mp hk.2.1) ((hk.le_iff hf hk'.1).mp hk'.2.1)

theorem InHour.le_end_iff (hf : Hourly f.times) (hk : InHour f k now) {j : ℕ} (hj : 0 < j)
    (hlen : j ≤ f.times.length) :
    now ≤ f.time (j - 1) + oneHour ↔ k < j ∨ k = j ∧ now = f.time j := by
  obtain ⟨hklen, hle, hlt⟩ := hk
  have hnext : j < f.times.length → f.time j = f.time (j - 1) + oneHour := by
    intro hj'
    have hstep := hf (j - 1) (by omega)
    rwa [Nat.sub_add_cancel hj] at hstep
  constructor
  · intro hend
    by_cases hkj : k < j
    · exact Or.inl hkj
    · have hj' := hnext (by omega)
      have hbefore : f.time j ≤ f.time k := hf.time_le (by omega) hklen
      have hnow : now = f.time j := by omega
      refine Or.inr ⟨?_, hnow⟩
      by_contra hne
      have hstep : f.time (j + 1) = f.time j + oneHour := hf j (by omega)
      have hafter : f.time (j + 1) ≤ f.time k := hf.time_le (by omega) hklen
      have hhour : (0 : ℤ) < oneHour := by decide
      omega
  · rintro (hkj | ⟨rfl, hnow⟩)
    · have hbefore : f.time k ≤ f.time (j - 1) := hf.time_le (by omega) (by omega)
      omega
    · rw [hnow, hnext hklen]

/-- The windows that contain `now` are those of the runs of its hour, and one that
ends with the hour before when `now` is the first instant. -/
theorem shouldList_eq_false_iff_of_inHour (hf : Hourly f.times) (hk : InHour f k now) :
    (buildVastSchedule f b now).shouldList = false ↔
      InRun f b k ∨ ∃ i, NoListRun f b i k ∧ now = f.time k := by
  rw [shouldList_eq_false_iff]
  constructor
  · rintro ⟨w, hw, hstart, hfinish⟩
    obtain ⟨i, j, hrun, rfl⟩ := noListWindow_iff.mp hw
    obtain ⟨hlt, hlen⟩ := hrun.valid
    have hik := (hk.le_iff hf (by omega)).mp hstart
    rcases (hk.le_end_iff hf (by omega) hlen).mp hfinish with hkj | ⟨rfl, hnow⟩
    · exact Or.inl ⟨i, j, hrun, hik, hkj⟩
    · exact Or.inr ⟨i, hrun, hnow⟩
  · rintro (⟨i, j, hrun, hik, hkj⟩ | ⟨i, hrun, hnow⟩)
    · obtain ⟨hlt, hlen⟩ := hrun.valid
      exact ⟨f.window i j, noListWindow_iff.mpr ⟨i, j, hrun, rfl⟩,
        (hk.le_iff hf (by omega)).mpr hik, (hk.le_end_iff hf (by omega) hlen).mpr (Or.inl hkj)⟩
    · obtain ⟨hlt, hlen⟩ := hrun.valid
      exact ⟨f.window i k, noListWindow_iff.mpr ⟨i, k, hrun, rfl⟩,
        (hk.le_iff hf (by omega)).mpr hlt.le,
        (hk.le_end_iff hf (by omega) hlen).mpr (Or.inr ⟨rfl, hnow⟩)⟩

end Hour

/-- The schedule says not to list exactly when the hour of `now` is in a long run. -/
def ListsByTheHour (f : HourlyForecast) (b : Band) (now : ℤ) : Prop :=
  (buildVastSchedule f b now).shouldList = false ↔ ∃ k, InHour f k now ∧ InRun f b k

theorem listsByTheHour_iff (f : HourlyForecast) (b : Band) (now : ℤ) (hf : Hourly f.times)
    (hnow : ∃ k, InHour f k now) : ListsByTheHour f b now ↔ ¬ AtEdge f b now := by
  obtain ⟨k, hk⟩ := hnow
  have hhour : (∃ k', InHour f k' now ∧ InRun f b k') ↔ InRun f b k := by
    constructor
    · rintro ⟨k', hk', hin⟩
      rwa [hk.unique hf hk']
    · exact fun hin => ⟨k, hk, hin⟩
  have hedge : AtEdge f b now ↔ (∃ i, NoListRun f b i k ∧ now = f.time k) ∧ ¬ InRun f b k := by
    constructor
    · rintro ⟨i, k', hrun, hlen, hnow, hout⟩
      have hpos : (0 : ℤ) < oneHour := by decide
      have hk' : InHour f k' now := ⟨hlen, hnow.ge, by omega⟩
      rw [hk.unique hf hk']
      exact ⟨⟨i, hrun, hnow⟩, hout⟩
    · rintro ⟨⟨i, hrun, hnow⟩, hout⟩
      exact ⟨i, k, hrun, hk.1, hnow, hout⟩
  rw [ListsByTheHour, shouldList_eq_false_iff_of_inHour hf hk, hhour, hedge,
    or_iff_left_iff_imp, not_and_not_right]

def coldThenMild : HourlyForecast :=
  ⟨[0, oneHour, 2 * oneHour], [.fin 4, .fin 4, .fin 10], rfl⟩

theorem hourly_coldThenMild : Hourly coldThenMild.times := by
  intro k hk
  have hk' : k < 2 := Nat.lt_of_succ_lt_succ hk
  interval_cases k
  · rfl
  · rfl

theorem inHour_coldThenMild : InHour coldThenMild 2 (2 * oneHour) := by
  refine ⟨by decide, le_rfl, ?_⟩
  decide

/-- The cold hours end at two, yet at two the schedule says not to list. -/
theorem not_listsByTheHour_coldThenMild :
    Hourly coldThenMild.times ∧ InHour coldThenMild 2 (2 * oneHour) ∧
      ¬ ListsByTheHour coldThenMild ⟨.fin 5, some (.fin 16), .fin 2⟩ (2 * oneHour) := by
  refine ⟨hourly_coldThenMild, inHour_coldThenMild, fun h => ?_⟩
  have hnot : (buildVastSchedule coldThenMild ⟨.fin 5, some (.fin 16), .fin 2⟩
      (2 * oneHour)).shouldList = false := by decide +kernel
  obtain ⟨k, hk, i, j, hrun, hik, hkj⟩ := h.mp hnot
  rw [hk.unique hourly_coldThenMild inHour_coldThenMild] at hik hkj
  have hmild : coldThenMild.pairs[2]? = some (2 * oneHour, .fin 10) := rfl
  -- ten degrees are in neither kind of run
  rcases hrun with ⟨hrun, -⟩ | ⟨hot, hb, hrun, -⟩
  · obtain ⟨hour, hhour, hin⟩ := hrun.inside 2 hik hkj
    rw [hmild] at hhour
    cases hhour
    revert hin
    decide
  · cases hb
    obtain ⟨hour, hhour, hin⟩ := hrun.inside 2 hik hkj
    rw [hmild] at hhour
    cases hhour
    revert hin
    decide

theorem listsByTheHour_beforeTheEnd :
    ListsByTheHour coldThenMild ⟨.fin 5, some (.fin 16), .fin 2⟩ (2 * oneHour - 1) ↔
      ¬ AtEdge coldThenMild ⟨.fin 5, some (.fin 16), .fin 2⟩ (2 * oneHour - 1) :=
  listsByTheHour_iff coldThenMild ⟨.fin 5, some (.fin 16), .fin 2⟩ (2 * oneHour - 1)
    hourly_coldThenMild ⟨1, by decide, by decide, by decide⟩

end HadcdAgent.Vast
