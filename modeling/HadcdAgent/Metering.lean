import HadcdAgent.Executor

/-!
# Metered energy

`KasaPowerMeter.average_watts_since` (`agent/kasa_power_meter.py`) and the heat
session that `_run_assignment` (`agent/agent.py`) posts for a fill task: average
power times a duration that is measured around the queue of the single worker.
Floats are exact rationals; the clock counts nanoseconds.
-/

namespace HadcdAgent.Metering

open Lib Executor

/-! ### The source -/

/-- `samples` are monotonic time in seconds and watts. -/
structure KasaPowerMeter where
  samples : List (ℚ × ℚ)
  lastWatts : Option ℚ

/-- `total_ws` and `total_sec`. -/
def trapezoid : List (ℚ × ℚ) → ℚ × ℚ
  | s :: t :: rest =>
    let total := trapezoid (t :: rest)
    ((s.2 + t.2) / 2 * (t.1 - s.1) + total.1, t.1 - s.1 + total.2)
  | _ => (0, 0)

def averageWattsSince (m : KasaPowerMeter) (sinceMonotonic : ℚ) : Option ℚ :=
  match m.samples.filter fun s => sinceMonotonic ≤ s.1 with
  | [] => m.lastWatts
  | [s] => some s.2
  | s :: t :: rest =>
    let total := trapezoid (s :: t :: rest)
    if 0 < total.2 then some (total.1 / total.2)
    else some ((s :: t :: rest).getLast (List.cons_ne_nil _ _)).2

def fillTypes : List Str :=
  ["gpu_mining_fill".toList, "p2pool_fill".toList, "synthetic_heat_fill".toList]

def seconds (t : ℤ) : ℚ := t / 1000000000

def measuredKwh (watts durationSec : ℚ) : ℚ := watts * durationSec / 3600000

/-- A heat session is posted. `converts` says whether `float` and `int` take the
fields of the result that go into its body. -/
def postsHeatSession (converts : TaskDict → Bool) (entry : Job × Ran) : Bool :=
  match entry.1.task.taskType, entry.2 with
  | some taskType, .outcome ⟨true, _, some result, _⟩ =>
    taskType ∈ fillTypes && (lookup "session_start".toList result).isSome &&
      (lookup "session_end".toList result).isSome && converts result
  | _, _ => false

def sessionKwh (converts : TaskDict → Bool) (m : KasaPowerMeter) (entry : Job × Ran) : ℚ :=
  if postsHeatSession converts entry then
    match entry.2, averageWattsSince m (seconds entry.1.start) with
    | .outcome o, some watts => measuredKwh watts (seconds o.durationSec)
    | _, _ => 0
  else 0

/-! ### The meter at constant power -/

/-- A meter whose every reading is `P`. -/
structure Steady (P : ℚ) extends KasaPowerMeter where
  last : lastWatts = some P
  same : ∀ s ∈ samples, s.2 = P

theorem trapezoid_of_same {P : ℚ} {samples : List (ℚ × ℚ)} (h : ∀ s ∈ samples, s.2 = P) :
    (trapezoid samples).1 = P * (trapezoid samples).2 := by
  induction samples with
  | nil => simp [trapezoid]
  | cons s rest ih =>
    cases rest with
    | nil => simp [trapezoid]
    | cons t rest =>
      have htail := ih fun u hu => h u (List.mem_cons_of_mem s hu)
      have hs : s.2 = P := h s (List.mem_cons_self ..)
      have ht : t.2 = P := h t (List.mem_cons_of_mem s (List.mem_cons_self ..))
      rw [trapezoid, htail, hs, ht]
      ring

theorem averageWattsSince_steady {P : ℚ} (m : Steady P) (since : ℚ) :
    averageWattsSince m.toKasaPowerMeter since = some P := by
  have hsame : ∀ s ∈ m.samples.filter (fun s => since ≤ s.1), s.2 = P :=
    fun s hs => m.same s (List.mem_of_mem_filter hs)
  unfold averageWattsSince
  split
  case h_1 => exact m.last
  case h_2 s hs => rw [hsame s (by rw [hs]; exact List.mem_singleton_self s)]
  case h_3 s t rest hs =>
    rw [hs] at hsame
    dsimp only
    split_ifs with hpos
    · rw [trapezoid_of_same hsame, mul_div_cancel_right₀ P (ne_of_gt hpos)]
    · rw [hsame _ (List.getLast_mem _)]

/-! ### The single worker -/

/-- At `time` an assignment is accepted, or the one that runs ends. -/
structure Tick (P : ℚ) where
  time : ℤ
  meter : Steady P
  accepted : Option Task

/-- The executor and the energy posted. The rest records what has gone by: the time
with no assignment in hand, the time that assignments waited for the worker, each
counted for itself, and the time in hand of those that ended without a session. -/
structure Ledger where
  executor : AgentExecutor
  now : ℤ
  kwh : ℚ
  idle : ℤ
  queued : ℤ
  unposted : ℤ

def begin (start : ℤ) : Ledger := ⟨Executor.idle 1, start, 0, 0, 0, 0⟩

def Ledger.pass (l : Ledger) (time : ℤ) : Ledger :=
  { l with
    now := time
    idle := if l.executor.pending = [] then l.idle + (time - l.now) else l.idle
    queued := l.queued + (l.executor.pending.length - 1 : ℕ) * (time - l.now) }

def Ledger.settle (converts : TaskDict → Bool) (m : KasaPowerMeter) (l : Ledger)
    (x : AgentExecutor) : Ledger :=
  let added := x.outcomes.drop l.executor.outcomes.length
  { l with
    executor := x
    kwh := l.kwh + (added.map (sessionKwh converts m)).sum
    unposted := l.unposted + (added.map fun entry =>
      if postsHeatSession converts entry then 0 else l.now - entry.1.start).sum }

def step {P : ℚ} (registered : List Str) (converts : TaskDict → Bool) (l : Ledger)
    (tick : Tick P) : Option Ledger :=
  if l.now ≤ tick.time then
    let event : Event := match tick.accepted with
      | some task => .run task tick.time tick.time
      | none => .finish 0 tick.time
    (Executor.step registered l.executor event).map
      ((l.pass tick.time).settle converts tick.meter.toKasaPowerMeter)
  else none

/-! ### Conservation -/

def inHandTime (now : ℤ) (jobs : List Job) : ℤ := (jobs.map fun job => now - job.start).sum

theorem inHandTime_pass (jobs : List Job) (now time : ℤ) :
    inHandTime time jobs = inHandTime now jobs + jobs.length * (time - now) := by
  induction jobs with
  | nil => simp [inHandTime]
  | cons job jobs ih =>
    simp only [inHandTime, List.map_cons, List.sum_cons, List.length_cons, Nat.cast_succ] at ih ⊢
    rw [ih]
    ring

/-- What a step of the executor does to the jobs: each that leaves takes its time
with it. -/
structure Leaves (x y : AgentExecutor) (now : ℤ) (added : List (Job × Ran)) : Prop where
  outcomes : y.outcomes = x.outcomes ++ added
  time : inHandTime now y.pending + inHandTime now (added.map Prod.fst) = inHandTime now x.pending
  duration : ∀ job o, (job, Ran.outcome o) ∈ added → o.durationSec = now - job.start

theorem durationSec_failed {job : Job} {now : ℤ} {e : Exn} {o : TaskOutcome}
    (h : Ran.outcome o = failed job now e) : o.durationSec = now - job.start := by
  unfold failed at h
  split_ifs at h
  cases h
  rfl

theorem leaves_submit (x : AgentExecutor) (task : Task) (now : ℤ) :
    ∃ added, Leaves x (submit x ⟨task, now⟩ now) now added := by
  unfold submit
  split_ifs
  · refine ⟨_, rfl, by simp [inHandTime], ?_⟩
    intro job o hmem
    obtain ⟨rfl, ho⟩ := Prod.mk.inj (List.mem_singleton.mp hmem)
    exact durationSec_failed ho
  · exact ⟨[], by simp, by simp [inHandTime], fun _ _ hmem => (nomatch hmem)⟩

theorem leaves_finish (registered : List Str) {x : AgentExecutor} {job : Job} {rest : List Job}
    (hpending : x.pending = job :: rest) (now : ℤ) :
    ∃ added, Leaves x (finish registered x 0 job now) now added := by
  unfold finish
  split
  case h_1 result =>
    refine ⟨_, rfl, by simp [hpending, inHandTime, add_comm], ?_⟩
    intro job' o hmem
    obtain ⟨rfl, ho⟩ := Prod.mk.inj (List.mem_singleton.mp hmem)
    cases ho
    rfl
  case h_2 e =>
    refine ⟨_, rfl, by simp [hpending, inHandTime, add_comm], ?_⟩
    intro job' o hmem
    obtain ⟨rfl, ho⟩ := Prod.mk.inj (List.mem_singleton.mp hmem)
    exact durationSec_failed ho
  case h_3 =>
    refine ⟨_, rfl, by simp [inHandTime, Function.comp_def], ?_⟩
    intro job' o hmem
    obtain ⟨job'', -, heq⟩ := List.mem_map.mp hmem
    obtain ⟨rfl, ho⟩ := Prod.mk.inj heq
    exact durationSec_failed ho.symm

theorem leaves_step {P : ℚ} {registered : List Str} {x y : AgentExecutor} {tick : Tick P}
    (h : Executor.step registered x (match tick.accepted with
      | some task => .run task tick.time tick.time
      | none => .finish 0 tick.time) = some y) :
    ∃ added, Leaves x y tick.time added := by
  cases hacc : tick.accepted with
  | some task =>
    rw [hacc] at h
    cases h
    exact leaves_submit x task tick.time
  | none =>
    rw [hacc] at h
    simp only [Executor.step] at h
    split_ifs at h
    obtain ⟨job, hjob, rfl⟩ := Option.map_eq_some_iff.mp h
    cases hpending : x.pending with
    | nil =>
      rw [hpending] at hjob
      cases hjob
    | cons first rest =>
      rw [hpending] at hjob
      cases hjob
      exact leaves_finish registered hpending tick.time

/-- What was posted for the jobs that left is the power over their time in hand, but
for those without a session. -/
theorem sum_sessionKwh {P : ℚ} (converts : TaskDict → Bool) (m : Steady P) {now : ℤ}
    {added : List (Job × Ran)}
    (hdur : ∀ job o, (job, Ran.outcome o) ∈ added → o.durationSec = now - job.start) :
    (added.map (sessionKwh converts m.toKasaPowerMeter)).sum =
      measuredKwh P (seconds (inHandTime now (added.map Prod.fst) -
        (added.map fun entry =>
          if postsHeatSession converts entry then 0 else now - entry.1.start).sum)) := by
  induction added with
  | nil => simp [inHandTime, seconds, measuredKwh]
  | cons entry rest ih =>
    have hrest := ih fun job o hmem => hdur job o (List.mem_cons_of_mem entry hmem)
    have hone : sessionKwh converts m.toKasaPowerMeter entry = measuredKwh P (seconds
        (now - entry.1.start - if postsHeatSession converts entry then 0
          else now - entry.1.start)) := by
      obtain ⟨job, ran⟩ := entry
      rw [sessionKwh, averageWattsSince_steady]
      split_ifs with hposts
      · cases ran with
        | escapes e =>
          unfold postsHeatSession at hposts
          split at hposts
          case h_1 heq => cases heq
          case h_2 => cases hposts
        | outcome o =>
          have ho := hdur job o (List.mem_cons_self ..)
          dsimp only
          rw [ho, sub_zero]
      · simp [measuredKwh, seconds]
    simp only [List.map_cons, List.sum_cons, inHandTime, hone] at hrest ⊢
    rw [hrest]
    simp only [measuredKwh, seconds]
    push_cast
    ring

/-- Energy posted, as power over the elapsed time, the time spent queueing, and what
is to be taken off for idling, for jobs without a session and for those in hand. -/
def Conserved (P : ℚ) (start : ℤ) (l : Ledger) : Prop :=
  l.kwh = measuredKwh P (seconds (l.now - start + l.queued - l.idle - l.unposted -
    inHandTime l.now l.executor.pending))

theorem conserved_begin (P : ℚ) (start : ℤ) : Conserved P start (begin start) := by
  simp [Conserved, begin, Executor.idle, inHandTime, measuredKwh, seconds]

theorem conserved_pass {P : ℚ} {start : ℤ} {l : Ledger} (h : Conserved P start l) (time : ℤ) :
    Conserved P start (l.pass time) := by
  have hkwh : (l.pass time).kwh = l.kwh := rfl
  rw [Conserved, hkwh, h]
  congr 2
  simp only [Ledger.pass, inHandTime_pass l.executor.pending l.now time]
  cases l.executor.pending with
  | nil =>
    simp only [inHandTime, List.map_nil, List.sum_nil, List.length_nil, if_true, Nat.zero_sub,
      Nat.cast_zero, zero_mul]
    ring
  | cons job rest =>
    rw [if_neg (List.cons_ne_nil job rest)]
    simp only [List.length_cons, Nat.add_sub_cancel, Nat.cast_succ]
    ring

theorem conserved_settle {P : ℚ} {start : ℤ} {l : Ledger} (h : Conserved P start l)
    (converts : TaskDict → Bool) (m : Steady P) {x : AgentExecutor} {added : List (Job × Ran)}
    (hx : Leaves l.executor x l.now added) :
    Conserved P start (l.settle converts m.toKasaPowerMeter x) := by
  have hadded : x.outcomes.drop l.executor.outcomes.length = added := by
    rw [hx.outcomes, List.drop_left]
  simp only [Conserved, Ledger.settle, hadded]
  rw [h, sum_sessionKwh converts m hx.duration, ← hx.time]
  simp only [measuredKwh, seconds]
  push_cast
  ring

theorem conserved_step {P : ℚ} {start : ℤ} {registered : List Str} {converts : TaskDict → Bool}
    {l l' : Ledger} {tick : Tick P} (h : Conserved P start l)
    (hstep : step registered converts l tick = some l') : Conserved P start l' := by
  unfold step at hstep
  split_ifs at hstep
  obtain ⟨x, hx, rfl⟩ := Option.map_eq_some_iff.mp hstep
  obtain ⟨added, hleaves⟩ := leaves_step hx
  exact conserved_settle (conserved_pass h tick.time) converts tick.meter hleaves

theorem measuredKwh_le_iff {P : ℚ} (hP : 0 < P) (x y : ℤ) :
    measuredKwh P (seconds x) ≤ measuredKwh P (seconds y) ↔ x ≤ y := by
  have hscale : ∀ z : ℤ, measuredKwh P (seconds z) = P / 3600000000000000 * z := by
    intro z
    simp only [measuredKwh, seconds]
    ring
  rw [hscale, hscale, mul_le_mul_iff_right₀ (by positivity), Int.cast_le]

/-- When every assignment has ended, the energy posted is at most the power over the
time from the first start to the last end, exactly when the power is zero or the
assignments waited for the worker, in total, no longer than there was none in hand
and than those without a session were. -/
theorem metered_le_iff (P : ℚ≥0) (registered : List Str) (converts : TaskDict → Bool)
    {first : Tick (P : ℚ)} {ticks : List (Tick (P : ℚ))} {l : Ledger}
    (hrun : Run.exec (step registered converts) (begin first.time) (first :: ticks) = some l)
    (hend : l.executor.pending = []) :
    l.kwh ≤ measuredKwh P (seconds (l.now - first.time)) ↔
      P = 0 ∨ l.queued ≤ l.idle + l.unposted := by
  have hconserved : Conserved P first.time l :=
    Run.exec_preserves (fun _ _ _ h hstep => conserved_step h hstep)
      (conserved_begin P first.time) hrun
  rw [hconserved, hend]
  rcases eq_or_ne P 0 with rfl | hP
  · simp [measuredKwh]
  · have hpos : (0 : ℚ) < P := by exact_mod_cast pos_iff_ne_zero.mpr hP
    rw [measuredKwh_le_iff hpos, or_iff_right hP]
    simp only [inHandTime, List.map_nil, List.sum_nil]
    omega

def fillTask : Task := ⟨some "synthetic_heat_fill".toList, none, fun _ =>
  .returns (.obj [("session_start".toList, .int 0), ("session_end".toList, .int 1)])⟩

def kilowatt : Steady ((1000 : ℚ≥0) : ℚ) := ⟨⟨[], some _⟩, rfl, fun _ h => (nomatch h)⟩

def pulled : Tick ((1000 : ℚ≥0) : ℚ) := ⟨0, kilowatt, some fillTask⟩

def ended (time : ℤ) : Tick ((1000 : ℚ≥0) : ℚ) := ⟨time, kilowatt, none⟩

def queuedRun : Option Ledger :=
  Run.exec (step fillTypes fun _ => true) (begin pulled.time)
    (pulled :: [pulled, ended 10000000000, ended 20000000000])

/-- Thirty seconds' worth of energy is posted for the twenty that go by. -/
theorem queuedRun_kwh : queuedRun.any (fun l => l.executor.pending.isEmpty &&
    l.now = 20000000000 && measuredKwh 1000 20 < l.kwh) = true := by
  decide +kernel

theorem metered_le_iff_queued : ∃ l, queuedRun = some l ∧
    (l.kwh ≤ measuredKwh (1000 : ℚ≥0) (seconds (l.now - pulled.time)) ↔
      (1000 : ℚ≥0) = 0 ∨ l.queued ≤ l.idle + l.unposted) := by
  obtain ⟨l, hl, htest⟩ := (Option.any_eq_true _ _).mp queuedRun_kwh
  rw [Bool.and_eq_true, Bool.and_eq_true, List.isEmpty_iff] at htest
  have hiff := metered_le_iff 1000 fillTypes (fun _ => true) hl htest.1.1
  exact ⟨l, hl, hiff⟩

theorem not_metered_le_queued : ∃ l, queuedRun = some l ∧ l.executor.pending = [] ∧
    measuredKwh 1000 (seconds (l.now - 0)) < l.kwh := by
  obtain ⟨l, hl, htest⟩ := (Option.any_eq_true _ _).mp queuedRun_kwh
  simp only [Bool.and_eq_true, List.isEmpty_iff, decide_eq_true_eq] at htest
  obtain ⟨⟨hpending, hnow⟩, hkwh⟩ := htest
  refine ⟨l, hl, hpending, ?_⟩
  rw [hnow]
  have hseconds : seconds (20000000000 - 0) = 20 := by norm_num [seconds]
  rw [hseconds]
  exact hkwh

end HadcdAgent.Metering
