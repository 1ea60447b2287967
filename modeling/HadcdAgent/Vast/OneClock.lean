import HadcdAgent.Vast.LocalSchedule

/-!
# The look-ahead and the zone of the node

The schedule of `build_vast_schedule` (`agent/weather.py`) is in naive local time;
`_is_near_window` (`agent/vast_provider.py`) reads its stamps as UTC. The local time
is UTC plus an offset.
-/

namespace HadcdAgent.Vast

open Lib

/-! ### The window that the schedule announces -/

/-- The earliest window that starts after `now`. -/
def IsNext (f : HourlyForecast) (b : Band) (now : ℤ) (w : Window) : Prop :=
  NoListWindow f b w ∧ now < w.start ∧
    ∀ v, NoListWindow f b v → now < v.start → w.start ≤ v.start

theorem nextWindowStart_eq_some_iff {f : HourlyForecast} {b : Band} {now t : ℤ} :
    (buildVastSchedule f b now).nextWindowStart = some t ↔
      ∃ w, IsNext f b now w ∧ w.start = t := by
  constructor
  · intro hnext
    obtain ⟨w, hw, hlater, hle⟩ := nextWindowStart_le_iff.mp ⟨t, hnext, le_rfl⟩
    have hfirst : ∀ v, NoListWindow f b v → now < v.start → t ≤ v.start := by
      intro v hv hlater'
      obtain ⟨t', hnext', hle'⟩ := nextWindowStart_le_iff.mpr ⟨v, hv, hlater', le_rfl⟩
      rw [hnext] at hnext'
      cases hnext'
      exact hle'
    have heq : w.start = t := le_antisymm hle (hfirst w hw hlater)
    exact ⟨w, ⟨hw, hlater, fun v hv hlater' => heq ▸ hfirst v hv hlater'⟩, heq⟩
  · rintro ⟨w, ⟨hw, hlater, hfirst⟩, rfl⟩
    obtain ⟨t, hnext, hle⟩ := nextWindowStart_le_iff.mpr ⟨w, hw, hlater, le_rfl⟩
    obtain ⟨v, hv, hlater', hle'⟩ := nextWindowStart_le_iff.mp ⟨t, hnext, le_rfl⟩
    rw [hnext, le_antisymm hle ((hfirst v hv hlater').trans hle')]

/-! ### The two clocks -/

/-- `_is_near_window` on a schedule built at the local time `now`; the instant is
`now - offset` in UTC. -/
def nearWindowAt (offset : ℤ) (p : VastProvider) (f : HourlyForecast) (b : Band) (now : ℤ) : Bool :=
  isNearWindow p (now - offset) (buildVastSchedule f b now).toSchedule.nextWindowStart

/-- It is true exactly when the window announced starts within the look-ahead. -/
def OneClock (offset : ℤ) (p : VastProvider) (f : HourlyForecast) (b : Band) (now : ℤ) : Prop :=
  nearWindowAt offset p f b now = true ↔
    ∃ t, (buildVastSchedule f b now).nextWindowStart = some t ∧ now ≤ t ∧
      t ≤ now + p.preListMicros

/-- `offset` takes a window that is `ahead` of now neither out of the look-ahead nor
into it. -/
def KeepsSide (offset preListMicros ahead : ℤ) : Prop :=
  ahead ≤ preListMicros ∧ -ahead ≤ offset ∧ offset ≤ preListMicros - ahead ∨
    preListMicros < ahead ∧ (offset < -ahead ∨ preListMicros - ahead < offset)

theorem nearWindowAt_iff {offset : ℤ} {p : VastProvider} {f : HourlyForecast} {b : Band}
    {now : ℤ} :
    nearWindowAt offset p f b now = true ↔
      ∃ t, (buildVastSchedule f b now).nextWindowStart = some t ∧ 0 ≤ t - now + offset ∧
        t - now + offset ≤ p.preListMicros := by
  have hshift : ∀ t, t - (now - offset) = t - now + offset := by
    intro t
    omega
  rw [nearWindowAt, LocalSchedule.toSchedule]
  cases (buildVastSchedule f b now).nextWindowStart with
  | none => simp [isNearWindow]
  | some t => simp [isNearWindow, hshift]

theorem oneClock_iff_keepsSide {offset : ℤ} {p : VastProvider} {f : HourlyForecast} {b : Band}
    {now : ℤ} :
    OneClock offset p f b now ↔
      ∀ w, IsNext f b now w → KeepsSide offset p.preListMicros (w.start - now) := by
  rw [OneClock, nearWindowAt_iff]
  cases hnext : (buildVastSchedule f b now).nextWindowStart with
  | none =>
    have hno : ∀ w, ¬ IsNext f b now w := by
      intro w hw
      rw [nextWindowStart_eq_some_iff.mpr ⟨w, hw, rfl⟩] at hnext
      cases hnext
    simp [hno]
  | some t =>
    obtain ⟨w, hw, hstart⟩ := nextWindowStart_eq_some_iff.mp hnext
    have hlater := hw.2.1
    have hall : (∀ v, IsNext f b now v → KeepsSide offset p.preListMicros (v.start - now)) ↔
        KeepsSide offset p.preListMicros (t - now) := by
      constructor
      · intro h
        exact hstart ▸ h w hw
      · intro h v hv
        have hsame := nextWindowStart_eq_some_iff.mpr ⟨v, hv, rfl⟩
        rw [hnext] at hsame
        rwa [← Option.some.inj hsame]
    rw [hall, KeepsSide]
    simp only [Option.some.injEq, exists_eq_left']
    omega

/-! ### A forecast with one cold hour -/

def oneColdHour (t : ℤ) : HourlyForecast := ⟨[t], [.fin 0], rfl⟩

def anyColdHour : Band := ⟨.fin 5, none, .fin 1⟩

theorem coldWindows_oneColdHour (t : ℤ) :
    coldWindows (oneColdHour t) anyColdHour.thresholdC anyColdHour.minHours =
      [⟨t, t + oneHour⟩] := by
  have hhours : (Window.mk t (t + oneHour)).durationHours = 1 := by
    simp [Window.durationHours, oneHour]
  have hlong : (PyFloat.fin (Window.mk t (t + oneHour)).durationHours).lt (.fin 1) = false := by
    rw [hhours]
    decide
  have hadd : maybeAddWindow [] [(t, .fin 0)] (.fin 1) = [⟨t, t + oneHour⟩] := by
    simp only [maybeAddWindow, List.head?_cons, List.getLast?_singleton, hlong, List.nil_append,
      Bool.false_eq_true, if_false]
  exact hadd

theorem nextWindowStart_oneColdHour {now t : ℤ} (h : now < t) :
    (buildVastSchedule (oneColdHour t) anyColdHour now).nextWindowStart = some t := by
  have hwindows : noListWindows (oneColdHour t) anyColdHour = [⟨t, t + oneHour⟩] := by
    rw [noListWindows, coldWindows_oneColdHour]
    rfl
  have hfuture : [Window.mk t (t + oneHour)].filter (fun w => now < w.start) =
      [⟨t, t + oneHour⟩] := by simp [h]
  rw [buildVastSchedule_eq, hwindows]
  dsimp only
  rw [hfuture]
  rfl

theorem oneClock_oneColdHour_iff {offset t : ℤ} {p : VastProvider} (h : 0 < t) :
    OneClock offset p (oneColdHour t) anyColdHour 0 ↔ KeepsSide offset p.preListMicros t := by
  have hnext := nextWindowStart_oneColdHour h
  rw [OneClock, nearWindowAt_iff, hnext, KeepsSide]
  simp only [Option.some.injEq, exists_eq_left']
  omega

def oneMinute : ℤ := 60000000

/-- The look-ahead uses one clock where the offset takes the next window over no end
of it; it does so on every schedule only in a zone without an offset. -/
theorem oneClock_iff (offset : ℤ) :
    (∀ p f b now, OneClock offset p f b now ↔
      ∀ w, IsNext f b now w → KeepsSide offset p.preListMicros (w.start - now)) ∧
    ((∀ p f b now, 0 ≤ p.preListMicros → OneClock offset p f b now) ↔ offset = 0) := by
  refine ⟨fun p f b now => oneClock_iff_keepsSide, fun hall => ?_, ?_⟩
  · -- one minute ahead with an offset east, and as far as an offset west
    have hpre : (0 : ℤ) ≤ oneMinute := by decide
    have hside : ∀ t, 0 < t → KeepsSide offset oneMinute t := by
      intro t ht
      exact (oneClock_oneColdHour_iff ht).mp
        (hall (initial true oneMinute) (oneColdHour t) anyColdHour 0 hpre)
    have hminute : (0 : ℤ) < oneMinute := by decide
    rcases lt_trichotomy offset 0 with hwest | hzero | heast
    · have hfar := hside (oneMinute - offset) (by omega)
      unfold KeepsSide at hfar
      omega
    · exact hzero
    · have hnear := hside oneMinute hminute
      unfold KeepsSide at hnear
      omega
  · rintro rfl p f b now -
    refine oneClock_iff_keepsSide.mpr fun w hw => ?_
    have hlater := hw.2.1
    unfold KeepsSide
    omega

/-- Five hours west of UTC: a cold hour five minutes ahead, a look-ahead of ten. -/
theorem not_oneClock_west :
    ¬ OneClock (-5 * oneHour) (initial true (10 * oneMinute)) (oneColdHour (5 * oneMinute))
      anyColdHour 0 := by
  rw [oneClock_oneColdHour_iff (by decide)]
  unfold KeepsSide
  decide

end HadcdAgent.Vast
