import HadcdAgent.Lib.MaximalRun
import HadcdAgent.Vast.Override
import Mathlib.Data.List.Sort

/-!
# The schedule from the local forecast

`cold_windows`, `hot_windows` and `build_vast_schedule` (`agent/weather.py`), and
what `VastProvider.update` makes of the result. The node's local time is UTC;
instants are microseconds.
-/

namespace HadcdAgent.Vast

open Lib

/-! ### The source -/

structure HourlyForecast where
  times : List ℤ
  tempsC : List PyFloat
  sameLength : times.length = tempsC.length

abbrev Hour := ℤ × PyFloat

def HourlyForecast.pairs (f : HourlyForecast) : List Hour := f.times.zip f.tempsC

def oneHour : ℤ := 3600000000

/-- `ColdWindow` and `HotWindow`; the end of the window is `finish`. -/
structure Window where
  start : ℤ
  finish : ℤ
  deriving DecidableEq

/-- `(end - start).total_seconds() / 3600.0`, exact for whole hours. -/
def Window.durationHours (w : Window) : ℚ := (w.finish - w.start : ℤ) / oneHour

/-- `_maybe_add_window` and `_maybe_add_hot_window` on the hours of a run. -/
def maybeAddWindow (windows : List Window) (run : List Hour) (minHours : PyFloat) : List Window :=
  match run.head?, run.getLast? with
  | some first, some last =>
    let w : Window := ⟨first.1, last.1 + oneHour⟩
    if (PyFloat.fin w.durationHours).lt minHours then windows else windows ++ [w]
  | _, _ => windows

/-- The loop of `cold_windows` and `hot_windows`; `run` is the hours from
`run_start_idx` on, empty for `None`. -/
def windowsLoop (inside : PyFloat → Bool) (minHours : PyFloat) :
    List Window → List Hour → List Hour → List Window
  | windows, run, [] => if run = [] then windows else maybeAddWindow windows run minHours
  | windows, run, (time, temp) :: rest =>
    if inside temp then windowsLoop inside minHours windows (run ++ [(time, temp)]) rest
    else if run = [] then windowsLoop inside minHours windows [] rest
    else windowsLoop inside minHours (maybeAddWindow windows run minHours) [] rest

def coldWindows (f : HourlyForecast) (thresholdC minHours : PyFloat) : List Window :=
  windowsLoop (fun temp => temp.lt thresholdC) minHours [] [] f.pairs

def hotWindows (f : HourlyForecast) (thresholdC minHours : PyFloat) : List Window :=
  windowsLoop (fun temp => thresholdC.lt temp) minHours [] [] f.pairs

structure LocalSchedule where
  shouldList : Bool
  nextWindowStart : Option ℤ
  nextWindowEnd : Option ℤ
  activeWindowEnd : Option ℤ

structure Band where
  thresholdC : PyFloat
  hotThresholdC : Option PyFloat
  minHours : PyFloat

def hotWindowsOf (f : HourlyForecast) (b : Band) : List Window :=
  match b.hotThresholdC with
  | some hot => hotWindows f hot b.minHours
  | none => []

def buildVastSchedule (f : HourlyForecast) (b : Band) (now : ℤ) : LocalSchedule :=
  let coldWins := coldWindows f b.thresholdC b.minHours
  let hotWins := hotWindowsOf f b
  let currentlyCold := coldWins.any fun w => w.start ≤ now && now ≤ w.finish
  let currentlyHot := hotWins.any fun w => w.start ≤ now && now ≤ w.finish
  let futureNolists := (coldWins.filter (fun w => now < w.start) ++
    hotWins.filter (fun w => now < w.start)).insertionSort fun v w => v.start ≤ w.start
  let next := futureNolists.head?
  ⟨!currentlyCold && !currentlyHot, next.map Window.start, next.map Window.finish, none⟩

/-- What `update` reads of the dict: the stamps are naive ISO strings. -/
def LocalSchedule.toSchedule (s : LocalSchedule) : Schedule :=
  ⟨s.shouldList, match s.nextWindowStart with
    | some t => .naive t
    | none => .absent⟩

/-! ### What the windows are -/

/-- A maximal run of hours inside the band's edge that is long enough. -/
def IsWindow (inside : PyFloat → Bool) (minHours : PyFloat) (hours : List Hour) (w : Window) :
    Prop :=
  ∃ run, MaximalRun (fun h => inside h.2) hours run ∧
    run.head?.map Prod.fst = some w.start ∧
    run.getLast?.map (fun h => h.1 + oneHour) = some w.finish ∧
    (PyFloat.fin w.durationHours).lt minHours = false

def NoListWindow (f : HourlyForecast) (b : Band) (w : Window) : Prop :=
  IsWindow (fun temp => temp.lt b.thresholdC) b.minHours f.pairs w ∨
    ∃ hot, b.hotThresholdC = some hot ∧
      IsWindow (fun temp => hot.lt temp) b.minHours f.pairs w

theorem mem_maybeAddWindow_iff {windows : List Window} {run : List Hour} {minHours : PyFloat}
    {w : Window} :
    w ∈ maybeAddWindow windows run minHours ↔ w ∈ windows ∨
      run.head?.map Prod.fst = some w.start ∧
        run.getLast?.map (fun h => h.1 + oneHour) = some w.finish ∧
        (PyFloat.fin w.durationHours).lt minHours = false := by
  unfold maybeAddWindow
  split
  case h_1 first last hfirst hlast =>
    have hwindow : run.head?.map Prod.fst = some w.start →
        run.getLast?.map (fun h => h.1 + oneHour) = some w.finish →
        (⟨first.1, last.1 + oneHour⟩ : Window) = w := by
      intro hs hf
      rw [hfirst] at hs
      rw [hlast] at hf
      have hstart : first.1 = w.start := Option.some.inj hs
      have hfinish : last.1 + oneHour = w.finish := Option.some.inj hf
      rw [hstart, hfinish]
    dsimp only
    split_ifs with hshort
    · refine (or_iff_left ?_).symm
      rintro ⟨hs, hf, hlong⟩
      rw [hwindow hs hf, hlong] at hshort
      cases hshort
    · rw [List.mem_append, List.mem_singleton]
      refine or_congr_right ⟨?_, ?_⟩
      · rintro rfl
        rw [hfirst, hlast]
        exact ⟨rfl, rfl, by simpa using hshort⟩
      · rintro ⟨hs, hf, -⟩
        exact (hwindow hs hf).symm
  case h_2 hnone =>
    refine (or_iff_left ?_).symm
    rintro ⟨hs, hf, -⟩
    obtain ⟨first, hfirst, -⟩ := Option.map_eq_some_iff.mp hs
    obtain ⟨last, hlast, -⟩ := Option.map_eq_some_iff.mp hf
    exact hnone first last hfirst hlast

/-- The loop adds the windows of the runs that the scan finds. -/
theorem mem_windowsLoop_iff (inside : PyFloat → Bool) (minHours : PyFloat) (w : Window)
    (windows : List Window) (run hours : List Hour) :
    w ∈ windowsLoop inside minHours windows run hours ↔ w ∈ windows ∨
      ∃ r ∈ runsFrom (fun h => inside h.2) run hours, w ∈ maybeAddWindow [] r minHours := by
  have hadd : ∀ (ws : List Window) (r : List Hour),
      w ∈ maybeAddWindow ws r minHours ↔ w ∈ ws ∨ w ∈ maybeAddWindow [] r minHours := by
    intro ws r
    rw [mem_maybeAddWindow_iff, mem_maybeAddWindow_iff]
    simp
  induction hours generalizing run windows with
  | nil =>
    rw [windowsLoop, runsFrom]
    split_ifs
    · simp
    · rw [hadd]
      simp
  | cons h rest ih =>
    obtain ⟨time, temp⟩ := h
    rw [windowsLoop, runsFrom]
    by_cases hin : inside temp = true
    · rw [if_pos hin, if_pos hin]
      exact ih windows (run ++ [(time, temp)])
    · rw [if_neg hin, if_neg hin]
      split_ifs
      · exact ih windows []
      · refine (ih (maybeAddWindow windows run minHours) []).trans ?_
        rw [hadd, or_assoc]
        simp

theorem mem_windows_iff {inside : PyFloat → Bool} {minHours : PyFloat} {hours : List Hour}
    {w : Window} :
    w ∈ windowsLoop inside minHours [] [] hours ↔ IsWindow inside minHours hours w := by
  rw [mem_windowsLoop_iff, IsWindow]
  have hruns : ∀ r, r ∈ runsFrom (fun h : Hour => inside h.2) [] hours ↔
      MaximalRun (fun h => inside h.2) hours r := by
    intro r
    exact mem_runsFrom_iff fun _ hx => (nomatch hx)
  simp only [hruns, mem_maybeAddWindow_iff, List.not_mem_nil, false_or]

def noListWindows (f : HourlyForecast) (b : Band) : List Window :=
  coldWindows f b.thresholdC b.minHours ++ hotWindowsOf f b

theorem mem_noListWindows_iff {f : HourlyForecast} {b : Band} {w : Window} :
    w ∈ noListWindows f b ↔ NoListWindow f b w := by
  rw [noListWindows, List.mem_append, NoListWindow, hotWindowsOf]
  refine or_congr mem_windows_iff ?_
  cases b.hotThresholdC with
  | none => simp
  | some hot =>
    have hwindows : w ∈ hotWindows f hot b.minHours ↔
        IsWindow (fun temp => hot.lt temp) b.minHours f.pairs w := mem_windows_iff
    simpa using hwindows

theorem buildVastSchedule_eq (f : HourlyForecast) (b : Band) (now : ℤ) :
    let next := (((noListWindows f b).filter fun w => now < w.start).insertionSort
      fun v w => v.start ≤ w.start).head?
    buildVastSchedule f b now =
      ⟨!(noListWindows f b).any fun w => w.start ≤ now && now ≤ w.finish,
        next.map Window.start, next.map Window.finish, none⟩ := by
  simp only [buildVastSchedule, noListWindows, List.any_append, List.filter_append, Bool.not_or]

/-! ### What the schedule says -/

theorem shouldList_eq_false_iff {f : HourlyForecast} {b : Band} {now : ℤ} :
    (buildVastSchedule f b now).shouldList = false ↔
      ∃ w, NoListWindow f b w ∧ w.start ≤ now ∧ now ≤ w.finish := by
  simp only [buildVastSchedule_eq, Bool.not_eq_false', List.any_eq_true, mem_noListWindows_iff,
    Bool.and_eq_true, decide_eq_true_eq]

theorem head?_insertionSort {windows : List Window} {w : Window}
    (h : (windows.insertionSort fun v w => v.start ≤ w.start).head? = some w) :
    w ∈ windows ∧ ∀ v ∈ windows, w.start ≤ v.start := by
  have hsorted : (windows.insertionSort fun v w => v.start ≤ w.start).Pairwise
      fun v w => v.start ≤ w.start := List.pairwise_insertionSort _ _
  have hmem : ∀ v, v ∈ windows.insertionSort (fun v w => v.start ≤ w.start) ↔ v ∈ windows :=
    fun v => List.mem_insertionSort _
  obtain ⟨rest, hlist⟩ := List.head?_eq_some_iff.mp h
  rw [hlist] at hsorted
  refine ⟨(hmem w).mp (hlist ▸ List.mem_cons_self ..), fun v hv => ?_⟩
  have hv' := (hmem v).mpr hv
  rw [hlist] at hv'
  rcases List.mem_cons.mp hv' with rfl | hrest
  · exact le_rfl
  · exact List.rel_of_pairwise_cons hsorted hrest

theorem head?_insertionSort_eq_none {windows : List Window} :
    (windows.insertionSort fun v w => v.start ≤ w.start).head? = none ↔ windows = [] := by
  rw [List.head?_eq_none_iff, ← List.length_eq_zero_iff, List.length_insertionSort,
    List.length_eq_zero_iff]

theorem nextWindowStart_le_iff {f : HourlyForecast} {b : Band} {now bound : ℤ} :
    (∃ t, (buildVastSchedule f b now).nextWindowStart = some t ∧ t ≤ bound) ↔
      ∃ w, NoListWindow f b w ∧ now < w.start ∧ w.start ≤ bound := by
  have hfuture : ∀ w, w ∈ (noListWindows f b).filter (fun w => now < w.start) ↔
      NoListWindow f b w ∧ now < w.start := by
    intro w
    rw [List.mem_filter, mem_noListWindows_iff, decide_eq_true_eq]
  simp only [← and_assoc, ← hfuture, buildVastSchedule_eq]
  generalize (noListWindows f b).filter (fun w => decide (now < w.start)) = future
  cases hnext : (future.insertionSort fun v w => v.start ≤ w.start).head? with
  | none =>
    rw [head?_insertionSort_eq_none] at hnext
    simp [hnext]
  | some v =>
    obtain ⟨hv, hfirst⟩ := head?_insertionSort hnext
    constructor
    · rintro ⟨t, ht, hle⟩
      cases ht
      exact ⟨v, hv, hle⟩
    · rintro ⟨w, hw, hle⟩
      exact ⟨v.start, rfl, (hfirst w hw).trans hle⟩

/-! ### What the provider makes of it -/

/-- The tick lists the machine, or leaves a listed one listed. -/
def WantsListed (p : VastProvider) (tick : Tick) : Prop :=
  (p.state = .unlisted ∨ p.state = .unlisting) ∧ (∃ r, .listMachine r ∈ (update p tick).calls) ∨
    p.state = .listed ∧ ∀ r, .unlistMachine r ∉ (update p tick).calls

theorem listMachine_mem_calls (p : VastProvider) (tick : Tick) :
    .listMachine tick.listMachine ∈ (doList p tick).calls := by
  simp only [doList, listed]
  cases tick.listMachine with
  | none => simp
  | some r =>
    cases r with
    | false => simp
    | true => cases p.listedAt <;> cases tick.getListingPrice <;> simp

theorem WantsListed.ne_listing {p : VastProvider} {tick : Tick} (h : WantsListed p tick) :
    p.state ≠ .listing := by
  intro hs
  rcases h with ⟨hu | hu, -⟩ | ⟨hl, -⟩
  · rw [hs] at hu
    cases hu
  · rw [hs] at hu
    cases hu
  · rw [hs] at hl
    cases hl

theorem wantsListed_iff {p : VastProvider} {tick : Tick} {s : Schedule} (he : p.enabled = true)
    (hs : p.state ≠ .listing) (hsch : tick.schedule = some s) :
    WantsListed p tick ↔ wantListed p s tick.now = true := by
  constructor
  · rintro (⟨-, r, hr⟩ | ⟨hlisted, hkeeps⟩)
    · have haction := (action_of_call p tick).1 r hr
      obtain ⟨s', hs', hwant⟩ := (wants_of_action hs tick).1 haction
      rw [hsch] at hs'
      rwa [Option.some.inj hs']
    · by_contra hwant
      have haction : action p tick.schedule tick.now = .unlist := by
        simp [action, he, hsch, hlisted, hwant]
      refine hkeeps tick.unlistMachine ?_
      rw [update, haction, calls_doUnlist]
      exact List.mem_singleton_self _
  · intro hwant
    have hcalls : action p tick.schedule tick.now = .list →
        ∃ r, .listMachine r ∈ (update p tick).calls := by
      intro haction
      refine ⟨tick.listMachine, ?_⟩
      rw [update, haction]
      exact listMachine_mem_calls p tick
    cases hstate : p.state with
    | listing => exact absurd hstate hs
    | listed =>
      have haction : action p tick.schedule tick.now = .idle false := by
        simp [action, he, hsch, hstate, hwant]
      refine Or.inr ⟨hstate, fun r hr => ?_⟩
      have hunlist := (action_of_call p tick).2.1 r hr
      rw [haction] at hunlist
      cases hunlist
    | unlisted => exact Or.inl ⟨Or.inl hstate, hcalls (by simp [action, he, hsch, hstate, hwant])⟩
    | unlisting => exact Or.inl ⟨Or.inr hstate, hcalls (by simp [action, he, hsch, hstate, hwant])⟩

/-- The provider takes the start of a window to avoid for one to list for. -/
theorem wantListed_toSchedule {p : VastProvider} (ho : p.override = .none) (f : HourlyForecast)
    (b : Band) (now : ℤ) :
    wantListed p (buildVastSchedule f b now).toSchedule now = true ↔
      (buildVastSchedule f b now).shouldList = true ∨
      ∃ w, NoListWindow f b w ∧ now < w.start ∧ w.start ≤ now + p.preListMicros := by
  rw [← nextWindowStart_le_iff, wantListed, ho]
  simp only [LocalSchedule.toSchedule, Bool.or_eq_true]
  refine or_congr_right ?_
  cases hnext : (buildVastSchedule f b now).nextWindowStart with
  | none => simp [isNearWindow]
  | some t =>
    have hlater : now < t := by
      obtain ⟨w, -, hw, hle⟩ := nextWindowStart_le_iff.mp ⟨t, hnext, le_rfl⟩
      exact hw.trans_le hle
    simp only [isNearWindow, Bool.and_eq_true, decide_eq_true_eq, Option.some.injEq,
      exists_eq_left']
    omega

/-- Whatever the state of the provider and the answers of the CLI, it wants to be
listed only where the schedule says so, exactly when no window to avoid begins
within the look-ahead of an instant inside another one. -/
theorem listed_only_if_shouldList_iff (f : HourlyForecast) (b : Band) (now preListMicros : ℤ) :
    (∀ p tick, p.enabled = true → p.override = .none → p.preListMicros = preListMicros →
      tick.schedule = some (buildVastSchedule f b now).toSchedule → tick.now = now →
      WantsListed p tick → (buildVastSchedule f b now).shouldList = true) ↔
    ¬ ((∃ v, NoListWindow f b v ∧ v.start ≤ now ∧ now ≤ v.finish) ∧
      ∃ w, NoListWindow f b w ∧ now < w.start ∧ w.start ≤ now + preListMicros) := by
  rw [← shouldList_eq_false_iff]
  constructor
  · rintro hall ⟨hnot, hnear⟩
    let p : VastProvider := initial true preListMicros
    let tick : Tick := ⟨some (buildVastSchedule f b now).toSchedule, now, none, none, none, none, 0⟩
    have hwant : wantListed p (buildVastSchedule f b now).toSchedule tick.now = true :=
      (wantListed_toSchedule rfl f b now).mpr (Or.inr hnear)
    have hstate : VastProviderState.unlisted ≠ .listing := by decide
    have hlisted : WantsListed p tick := (wantsListed_iff rfl hstate rfl).mpr hwant
    have hshould := hall p tick rfl rfl rfl rfl rfl hlisted
    rw [hnot] at hshould
    cases hshould
  · rintro hcond p tick he ho rfl hsch rfl hlisted
    have hwant := (wantsListed_iff he hlisted.ne_listing hsch).mp hlisted
    rcases (wantListed_toSchedule ho f b tick.now).mp hwant with hshould | hnear
    · exact hshould
    · by_contra hnot
      rw [Bool.not_eq_true] at hnot
      exact hcond ⟨hnot, hnear⟩

def coldThenHot : HourlyForecast :=
  ⟨[0, oneHour, 2 * oneHour, 3 * oneHour], [.fin 4, .fin 4, .fin 20, .fin 20], rfl⟩

/-- Five minutes before the cold window ends and the hot one begins: the schedule
says not to list, the provider lists. -/
theorem not_listed_only_if_coldThenHot :
    let schedule := buildVastSchedule coldThenHot ⟨.fin 5, some (.fin 16), .fin 2⟩ 6900000000
    schedule.shouldList = false ∧
    (update (initial true 600000000)
      ⟨some schedule.toSchedule, 6900000000, some true, none, none, some none, 0⟩).calls =
      [.listMachine (some true), .getListingPrice (some none)] := by
  decide +kernel

end HadcdAgent.Vast
