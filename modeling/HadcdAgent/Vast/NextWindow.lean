import HadcdAgent.Vast.Windows

/-!
# The window that the schedule announces

The windows of `agent/weather.py` with their temperatures refine those of
`build_vast_schedule`, whose `next_window_start` and `next_window_end` are those of
the earliest run to come.
-/

namespace HadcdAgent.Weather

open Lib

/-! ### The windows without their temperatures -/

def HourlyForecast.toVast (f : HourlyForecast) : Vast.HourlyForecast :=
  ⟨f.times, f.tempsC.map .fin, by rw [List.length_map, f.sameLength]⟩

def TempWindow.toVast (w : TempWindow) : Vast.Window := ⟨w.start, w.finish⟩

def toHour (h : ℤ × ℚ) : Vast.Hour := (h.1, .fin h.2)

theorem pairs_toVast (f : HourlyForecast) : f.toVast.pairs = f.pairs.map toHour := by
  rw [Vast.HourlyForecast.pairs, HourlyForecast.pairs]
  change f.times.zip (f.tempsC.map PyFloat.fin) = _
  rw [List.zip_map_right]
  rfl

theorem maybeAdd_toVast (extreme : ℚ → ℚ → ℚ) (windows : List TempWindow)
    (pairs : List (ℤ × ℚ)) (i j : ℕ) (minHours : ℚ) :
    (maybeAdd extreme windows pairs i j minHours).map TempWindow.toVast =
      Vast.maybeAddWindow (windows.map TempWindow.toVast) ((slice pairs i j).map toHour)
        (.fin minHours) := by
  simp only [maybeAdd, Vast.maybeAddWindow, List.head?_map, List.getLast?_map]
  cases hhead : (slice pairs i j).head? with
  | none => rfl
  | some first =>
    cases hlast : (slice pairs i j).getLast? with
    | none => rfl
    | some last =>
      by_cases hshort : TempWindow.durationHours ⟨first.1, last.1 + Vast.oneHour,
          ((slice pairs i j).map Prod.snd).tail.foldl extreme first.2,
          ((slice pairs i j).map Prod.snd).sum / ((slice pairs i j).map Prod.snd).length⟩ < minHours
      · have hshort' : PyFloat.lt (.fin (Vast.Window.durationHours
            ⟨first.1, last.1 + Vast.oneHour⟩)) (.fin minHours) = true := decide_eq_true hshort
        exact (congrArg _ (if_pos hshort)).trans (if_pos hshort').symm
      · have hshort' : ¬ PyFloat.lt (.fin (Vast.Window.durationHours
            ⟨first.1, last.1 + Vast.oneHour⟩)) (.fin minHours) = true :=
          fun h => hshort (of_decide_eq_true h)
        refine ((congrArg _ (if_neg hshort)).trans ?_).trans (if_neg hshort').symm
        rw [List.map_append]
        rfl

/-- The hours of the run under way. -/
def underWay (pairs : List (ℤ × ℚ)) (i : ℕ) : Option ℕ → List (ℤ × ℚ)
  | none => []
  | some start => slice pairs start i

theorem windowsLoop_toVast (inside : ℚ → Bool) (inside' : PyFloat → Bool)
    (hinside : ∀ temp, inside' (.fin temp) = inside temp) (extreme : ℚ → ℚ → ℚ)
    (pairs : List (ℤ × ℚ)) (minHours : ℚ) (rest : List (ℤ × ℚ)) (windows : List TempWindow)
    (start : Option ℕ) (i : ℕ) (hrest : rest = pairs.drop i) (hi : i ≤ pairs.length)
    (hstart : ∀ s, start = some s → s < i) :
    (windowsLoop inside (fun windows a b => maybeAdd extreme windows pairs a b minHours)
        pairs.length windows start i rest).map TempWindow.toVast =
      Vast.windowsLoop inside' (.fin minHours) (windows.map TempWindow.toVast)
        ((underWay pairs i start).map toHour) (rest.map toHour) := by
  -- the one loop keeps the hours of the run, the other the index at which it began
  induction rest generalizing windows start i with
  | nil =>
    have hlen : i = pairs.length := by
      have hdrop := List.drop_eq_nil_iff.mp hrest.symm
      omega
    cases start with
    | none => rfl
    | some s =>
      have hne : (slice pairs s i).map toHour ≠ [] :=
        fun hnil => slice_ne_nil (hstart s rfl) hi (List.map_eq_nil_iff.mp hnil)
      rw [windowsLoop, List.map_nil, underWay, Vast.windowsLoop, if_neg hne, ← hlen]
      exact maybeAdd_toVast extreme windows pairs s i minHours
  | cons h rest ih =>
    obtain ⟨time, temp⟩ := h
    have hhere : pairs[i]? = some (time, temp) := by
      rw [← List.head?_drop, ← hrest]
      rfl
    have hnext : rest = pairs.drop (i + 1) := by
      rw [← List.tail_drop, ← hrest]
      rfl
    have hlt : i < pairs.length := (List.getElem?_eq_some_iff.mp hhere).1
    have hhour : toHour (time, temp) = (time, .fin temp) := rfl
    cases start with
    | none =>
      rw [windowsLoop, List.map_cons, hhour, underWay, List.map_nil, Vast.windowsLoop, hinside]
      cases hin : inside temp with
      | true =>
        have hrun : [(time, PyFloat.fin temp)] = (underWay pairs (i + 1) (some i)).map toHour := by
          have hone := slice_succ le_rfl hhere
          rw [underWay, hone, slice, Nat.sub_self]
          rfl
        rw [if_pos rfl, if_pos rfl, List.nil_append, hrun]
        exact ih windows (some i) (i + 1) hnext hlt fun s hs => by
          cases hs
          exact Nat.lt_succ_self _
      | false =>
        exact ih windows none (i + 1) hnext hlt fun _ hs => absurd hs.symm (Option.some_ne_none _)
    | some s =>
      have hs := hstart s rfl
      rw [windowsLoop, List.map_cons, hhour, underWay, Vast.windowsLoop, hinside]
      cases hin : inside temp with
      | true =>
        have hrun : (slice pairs s i).map toHour ++ [(time, PyFloat.fin temp)] =
            (underWay pairs (i + 1) (some s)).map toHour := by
          rw [underWay, slice_succ hs.le hhere, List.map_append]
          rfl
        rw [if_pos rfl, if_pos rfl, hrun]
        exact ih windows (some s) (i + 1) hnext hlt fun s' hs' => by
          cases hs'
          exact Nat.lt_succ_of_lt hs
      | false =>
        have hne : (slice pairs s i).map toHour ≠ [] :=
          fun hnil => slice_ne_nil hs hi (List.map_eq_nil_iff.mp hnil)
        rw [if_neg (by decide), if_neg (by decide), if_neg hne, ← maybeAdd_toVast extreme]
        exact ih _ none (i + 1) hnext hlt fun _ hs' => absurd hs'.symm (Option.some_ne_none _)

theorem pairs_eq_nil {f : HourlyForecast} (h : f.times = []) : f.pairs = [] := by
  rw [HourlyForecast.pairs, h, List.zip_nil_left]

theorem coldWindows_toVast (f : HourlyForecast) (thresholdC minHours : ℚ) :
    (coldWindows f thresholdC minHours).map TempWindow.toVast =
      Vast.coldWindows f.toVast (.fin thresholdC) (.fin minHours) := by
  rw [coldWindows, Vast.coldWindows, pairs_toVast]
  split_ifs with hempty
  · rw [pairs_eq_nil hempty]
    rfl
  · exact windowsLoop_toVast (fun temp => temp < thresholdC)
      (fun temp => temp.lt (.fin thresholdC)) (fun _ => rfl) min f.pairs minHours f.pairs [] none 0
      rfl (Nat.zero_le _) fun _ hs => absurd hs.symm (Option.some_ne_none _)

theorem hotWindows_toVast (f : HourlyForecast) (thresholdC minHours : ℚ) :
    (hotWindows f thresholdC minHours).map TempWindow.toVast =
      Vast.hotWindows f.toVast (.fin thresholdC) (.fin minHours) := by
  rw [hotWindows, Vast.hotWindows, pairs_toVast]
  split_ifs with hempty
  · rw [pairs_eq_nil hempty]
    rfl
  · exact windowsLoop_toVast (fun temp => thresholdC < temp)
      (fun temp => PyFloat.lt (.fin thresholdC) temp) (fun _ => rfl) max f.pairs minHours f.pairs []
      none 0 rfl (Nat.zero_le _) fun _ hs => absurd hs.symm (Option.some_ne_none _)

/-! ### The earliest run to come -/

def NoListRun (f : HourlyForecast) (thresholdC : ℚ) (hotThresholdC : Option ℚ) (minHours : ℚ)
    (i j : ℕ) : Prop :=
  LongRun (· < thresholdC) f minHours i j ∨
    ∃ hot, hotThresholdC = some hot ∧ LongRun (hot < ·) f minHours i j

def HourlyForecast.window (f : HourlyForecast) (i j : ℕ) : Vast.Window :=
  ⟨f.time i, f.time (j - 1) + Vast.oneHour⟩

/-- The start and the end announced are those of the earliest run that starts after
`now`; without one there are none. -/
def AnnouncesEarliest (runs : ℕ → ℕ → Prop) (f : HourlyForecast) (now : ℤ)
    (s : Vast.LocalSchedule) : Prop :=
  match s.nextWindowStart, s.nextWindowEnd with
  | none, none => ∀ i j, runs i j → f.time i ≤ now
  | some start, some finish => ∃ i j, runs i j ∧ now < f.time i ∧ start = f.time i ∧
      finish = f.time (j - 1) + Vast.oneHour ∧
      ∀ i' j', runs i' j' → now < f.time i' → f.time i ≤ f.time i'
  | _, _ => False

theorem mem_toVast_iff {inside : ℚ → Prop} {extremal : Set ℚ → ℚ → Prop} {f : HourlyForecast}
    {minHours : ℚ} {windows : List TempWindow}
    (h : ExactWindows inside extremal f minHours windows) {w : Vast.Window} :
    w ∈ windows.map TempWindow.toVast ↔
      ∃ i j, LongRun inside f minHours i j ∧ f.window i j = w := by
  obtain ⟨rs, -, hruns, hwindows⟩ := h
  have hmap : windows.map TempWindow.toVast = rs.map fun r => f.window r.1 r.2 := by
    clear hruns
    induction hwindows with
    | nil => rfl
    | cons hrw _ ih =>
      rw [List.map_cons, List.map_cons, ih, TempWindow.toVast, hrw.start, hrw.finish]
      rfl
  rw [hmap, List.mem_map, Prod.exists]
  exact exists₂_congr fun i j => and_congr_left' (hruns i j)

theorem mem_noListWindows_toVast {f : HourlyForecast} {thresholdC minHours : ℚ}
    {hotThresholdC : Option ℚ} {w : Vast.Window} :
    w ∈ Vast.noListWindows f.toVast ⟨.fin thresholdC, hotThresholdC.map .fin, .fin minHours⟩ ↔
      ∃ i j, NoListRun f thresholdC hotThresholdC minHours i j ∧ f.window i j = w := by
  have hcold := mem_toVast_iff (w := w) (exactWindows_coldWindows f thresholdC minHours)
  rw [coldWindows_toVast] at hcold
  rw [Vast.noListWindows, List.mem_append, hcold]
  cases hotThresholdC with
  | none => simp [Vast.hotWindowsOf, NoListRun]
  | some hot =>
    have hhot := mem_toVast_iff (w := w) (exactWindows_hotWindows f hot minHours)
    rw [hotWindows_toVast] at hhot
    have hhotOf : Vast.hotWindowsOf f.toVast ⟨.fin thresholdC, some (.fin hot), .fin minHours⟩ =
        Vast.hotWindows f.toVast (.fin hot) (.fin minHours) := rfl
    rw [Option.map_some, hhotOf, hhot]
    simp only [NoListRun, Option.some.injEq, exists_eq_left', or_and_right, exists_or]

theorem announcesEarliest (f : HourlyForecast) (thresholdC minHours : ℚ)
    (hotThresholdC : Option ℚ) (now : ℤ) :
    AnnouncesEarliest (NoListRun f thresholdC hotThresholdC minHours) f now
      (Vast.buildVastSchedule f.toVast
        ⟨.fin thresholdC, hotThresholdC.map .fin, .fin minHours⟩ now) := by
  have hfuture : ∀ w, w ∈ (Vast.noListWindows f.toVast
        ⟨.fin thresholdC, hotThresholdC.map .fin, .fin minHours⟩).filter (fun w => now < w.start) ↔
      (∃ i j, NoListRun f thresholdC hotThresholdC minHours i j ∧ f.window i j = w) ∧
        now < w.start := by
    intro w
    rw [List.mem_filter, mem_noListWindows_toVast, decide_eq_true_eq]
  rw [AnnouncesEarliest, Vast.buildVastSchedule_eq]
  generalize (Vast.noListWindows f.toVast
    ⟨.fin thresholdC, hotThresholdC.map .fin, .fin minHours⟩).filter (fun w => now < w.start) =
    future at hfuture
  cases hnext : (future.insertionSort fun v w => v.start ≤ w.start).head? with
  | none =>
    intro i j hrun
    by_contra hlater
    have hmem := (hfuture (f.window i j)).mpr ⟨⟨i, j, hrun, rfl⟩, not_le.mp hlater⟩
    rw [Vast.head?_insertionSort_eq_none.mp hnext] at hmem
    cases hmem
  | some w =>
    obtain ⟨hw, hfirst⟩ := Vast.head?_insertionSort hnext
    obtain ⟨⟨i, j, hrun, rfl⟩, hlater⟩ := (hfuture w).mp hw
    refine ⟨i, j, hrun, hlater, rfl, rfl, fun i' j' hrun' hlater' => ?_⟩
    exact hfirst (f.window i' j') ((hfuture _).mpr ⟨⟨i', j', hrun', rfl⟩, hlater'⟩)

/-- Extraction is exact in both kinds, hourly times keep the windows of a kind apart,
and the schedule announces the earliest run to come. -/
theorem windows_exact (f : HourlyForecast) (thresholdC minHours : ℚ) (hotThresholdC : Option ℚ)
    (now : ℤ) :
    ExactWindows (· < thresholdC) IsLeast f minHours (coldWindows f thresholdC minHours) ∧
    (∀ hot, ExactWindows (hot < ·) IsGreatest f minHours (hotWindows f hot minHours)) ∧
    (Vast.Hourly f.times → Separated (coldWindows f thresholdC minHours) ∧
      ∀ hot, Separated (hotWindows f hot minHours)) ∧
    AnnouncesEarliest (NoListRun f thresholdC hotThresholdC minHours) f now
      (Vast.buildVastSchedule f.toVast
        ⟨.fin thresholdC, hotThresholdC.map .fin, .fin minHours⟩ now) := by
  have hcold := exactWindows_coldWindows f thresholdC minHours
  have hhot := fun hot => exactWindows_hotWindows f hot minHours
  exact ⟨hcold, hhot, fun hf => ⟨hcold.separated hf, fun hot => (hhot hot).separated hf⟩,
    announcesEarliest f thresholdC minHours hotThresholdC now⟩

end HadcdAgent.Weather
