import HadcdAgent.Lib.Run
import Mathlib.Algebra.Order.Field.Rat
import Mathlib.Data.PNat.Basic
import Mathlib.Tactic.Linarith

/-!
# The synthetic heat fill

`run_synthetic_heat_fill` (`hadcd_workloads/synthetic_heat_fill.py`) with its CPU worker
processes and its GPU thread, each at its own pace. The clock counts seconds. What kills a
worker from outside is left out, and the row that a session logs.
-/

namespace HadcdAgent.HeatFill

open Lib

/-! ### The source -/

/-- The arguments and settings of one call, as it has read them. `threads` is positive: so is
`SYNTHETIC_HEAT_THREADS` where it counts, and `_default_threads()` is at least one. -/
structure Settings where
  durationSec : ℚ
  threads : ℕ+
  wantGpu : Bool
  pollSec : ℚ

inductive Worker where
  | burning
  | exited
  | killed
  deriving DecidableEq

inductive Gpu where
  | off
  | burning
  | finished
  deriving DecidableEq

/-- Where the handler stands; `joining` and `killing` wait for the worker of that number. -/
inductive Control where
  | starting
  | testing
  | asking
  | sleeping (till : ℚ)
  | joining (i : ℕ) (since : ℚ)
  | killing (i : ℕ) (since : ℚ)
  | joiningGpu (since : ℚ)
  | logging
  | ended (returned : Bool)
  deriving DecidableEq

/-- `stopFlag` is also the GPU thread's event. An exception may be on its way (`raised`). -/
structure Burn where
  start : ℚ
  now : ℚ
  stopFlag : Bool
  workers : List Worker
  gpu : Gpu
  control : Control
  raised : Bool
  startRaised : Bool
  sleeps : ℕ

inductive Event where
  | tick (d : ℚ)
  | batch (i : ℕ)                  -- a worker reads the flag
  | gpuRound (unavailable : Bool)
  | start (ok : Bool)
  | test
  | ask
  | wake
  | interrupt
  | joined
  | timedOut
  | log (ok : Bool)

variable (cfg : Settings)

def begin (now : ℚ) : Burn :=
  ⟨now, now, false, [], if cfg.wantGpu then .burning else .off, .starting, false, false, 0⟩

def deadline (s : Burn) : ℚ := s.start + cfg.durationSec

/-- The `finally`. -/
def enterFinally (s : Burn) (raised : Bool) : Burn :=
  { s with stopFlag := true, control := .joining 0 s.now, raised := raised }

/-- Behind the `finally`. -/
def afterJoins (s : Burn) : Burn :=
  { s with control := if s.raised then .ended false else .logging }

def nextWorker (s : Burn) (i : ℕ) : Burn :=
  if i + 1 < s.workers.length then { s with control := .joining (i + 1) s.now }
  else if s.gpu = .burning then { s with control := .joiningGpu s.now }
  else afterJoins s

def requested (s : Burn) : ℚ := min cfg.pollSec (max 0 (deadline cfg s - s.now))

def startWorker (s : Burn) (ok : Bool) : Burn :=
  if ok then
    { s with
      workers := s.workers ++ [.burning]
      control := if s.workers.length + 1 < cfg.threads then .starting else .testing }
  else { s with control := .ended false, startRaised := true }

def ask (s : Burn) : Burn :=
  if requested cfg s < 0 then enterFinally s true
  else { s with control := .sleeping (s.now + requested cfg s), sleeps := s.sleeps + 1 }

def timedOut (s : Burn) : Option Burn :=
  match s.control with
  | .joining i since =>
    if since + 5 ≤ s.now then
      if s.workers[i]? = some .burning then
        some { s with workers := s.workers.set i .killed, control := .killing i s.now }
      else some (nextWorker s i)
    else none
  | .killing i since => if since + 1 ≤ s.now then some (nextWorker s i) else none
  | .joiningGpu since => if since + 5 ≤ s.now then some (afterJoins s) else none
  | _ => none

def joined (s : Burn) : Option Burn :=
  match s.control with
  | .joining i _ => if s.workers[i]? = some .burning then none else some (nextWorker s i)
  | .killing i _ => some (nextWorker s i)
  | .joiningGpu _ => if s.gpu = .burning then none else some (afterJoins s)
  | _ => none

def step (s : Burn) : Event → Option Burn
  | .tick d => if 0 ≤ d then some { s with now := s.now + d } else none
  | .batch i =>
    if s.stopFlag = true ∧ s.workers[i]? = some .burning then
      some { s with workers := s.workers.set i .exited }
    else some s
  | .gpuRound unavailable =>
    if s.gpu = .burning ∧ (unavailable || s.stopFlag) = true then some { s with gpu := .finished }
    else some s
  | .start ok => if s.control = .starting then some (startWorker cfg s ok) else none
  | .test =>
    if s.control = .testing then
      some (if s.now < deadline cfg s then { s with control := .asking } else enterFinally s false)
    else none
  | .ask => if s.control = .asking then some (ask cfg s) else none
  | .wake =>
    match s.control with
    | .sleeping till => if till ≤ s.now then some { s with control := .testing } else none
    | _ => none
  | .interrupt =>
    match s.control with
    | .testing | .asking | .sleeping _ => some (enterFinally s true)
    | _ => none
  | .joined => joined s
  | .timedOut => timedOut s
  | .log ok => if s.control = .logging then some { s with control := .ended ok } else none

/-! ### What is kept -/

/-- None of the first `n` workers burns. -/
def Dead (s : Burn) (n : ℕ) : Prop := ∀ j < n, s.workers[j]? ≠ some .burning

/-- The sleeps so far have brought the clock to `t`. -/
def Paced (s : Burn) (t : ℚ) : Prop :=
  0 < cfg.pollSec → min (deadline cfg s) (s.start + s.sleeps * cfg.pollSec) ≤ t

/-- The handler is in its loop, or before it. -/
def Running (s : Burn) : Prop := s.stopFlag = false ∧ s.startRaised = false

/-- The handler is in its `finally`, or behind it. -/
def Stopping (s : Burn) : Prop :=
  s.stopFlag = true ∧ s.startRaised = false ∧ (s.raised = false → deadline cfg s ≤ s.now)

/-- A start has raised, or the `finally` was gone through. -/
def Closed (s : Burn) (returned : Bool) : Prop :=
  (s.startRaised = true ∧ s.stopFlag = false ∧ returned = false) ∨
    (Stopping cfg s ∧ Dead s s.workers.length ∧ (returned = true → s.raised = false))

/-- What holds where the handler stands at `c`. -/
def Fits (s : Burn) (c : Control) : Prop :=
  match c with
  | .starting => Running s ∧ s.sleeps = 0
  | .testing => Running s ∧ Paced cfg s s.now
  | .asking => Running s ∧ Paced cfg s s.now ∧
      (0 < cfg.pollSec → s.sleeps * cfg.pollSec < cfg.durationSec)
  | .sleeping till => Running s ∧ Paced cfg s till
  | .joining i _ => Stopping cfg s ∧ Dead s i
  | .killing i _ => Stopping cfg s ∧ Dead s (i + 1)
  | .joiningGpu _ => Stopping cfg s ∧ Dead s s.workers.length
  | .logging => Stopping cfg s ∧ s.raised = false ∧ Dead s s.workers.length
  | .ended returned => Closed cfg s returned

structure Invariant (s : Burn) : Prop where
  time : s.start ≤ s.now
  burns : s.stopFlag = false → ∀ w ∈ s.workers, w = .burning
  sleeps : 0 < cfg.pollSec → s.sleeps = 0 ∨ s.sleeps * cfg.pollSec < cfg.durationSec + cfg.pollSec
  fits : Fits cfg s s.control

variable {cfg} {s u : Burn}

theorem Dead.set {n : ℕ} (h : Dead s n) (i : ℕ) {w : Worker} (hw : w ≠ .burning) {t : Burn}
    (ht : t.workers = s.workers.set i w) : Dead t n := by
  intro j hj
  rw [ht]
  by_cases hij : i = j
  · subst hij
    rw [List.getElem?_set, if_pos rfl]
    split_ifs
    · exact fun heq => hw (Option.some.inj heq)
    · exact (Option.some_ne_none _).symm
  · rw [List.getElem?_set_ne hij]
    exact h j hj

theorem Dead.all (h : Dead s s.workers.length) : ∀ w ∈ s.workers, w ≠ .burning := by
  intro w hw heq
  obtain ⟨i, hi⟩ := List.mem_iff_getElem?.mp hw
  exact h i (List.getElem?_eq_some_iff.mp hi).1 (heq ▸ hi)

theorem Paced.mono {t t' : ℚ} (h : Paced cfg s t) (hle : t ≤ t') : Paced cfg s t' :=
  fun hp => (h hp).trans hle

theorem Fits.tick {c : Control} (h : Fits cfg s c) {d : ℚ} (hd : 0 ≤ d) :
    Fits cfg { s with now := s.now + d } c := by
  have hle : s.now ≤ s.now + d := le_add_of_nonneg_right hd
  have hstop : Stopping cfg s → Stopping cfg { s with now := s.now + d } :=
    fun hs => ⟨hs.1, hs.2.1, fun hr => (hs.2.2 hr).trans hle⟩
  cases c with
  | starting => exact h
  | testing => exact ⟨h.1, h.2.mono hle⟩
  | asking => exact ⟨h.1, h.2.1.mono hle, h.2.2⟩
  | sleeping till => exact h
  | joining i since => exact ⟨hstop h.1, h.2⟩
  | killing i since => exact ⟨hstop h.1, h.2⟩
  | joiningGpu since => exact ⟨hstop h.1, h.2⟩
  | logging => exact ⟨hstop h.1, h.2⟩
  | ended returned => exact h.imp id fun hs => ⟨hstop hs.1, hs.2⟩

/-- A worker has stopped. -/
theorem Fits.set {c : Control} (h : Fits cfg s c) (hflag : s.stopFlag = true) (i : ℕ) {w : Worker}
    (hw : w ≠ .burning) : Fits cfg { s with workers := s.workers.set i w } c := by
  have hdead : ∀ n, Dead s n → Dead { s with workers := s.workers.set i w } n :=
    fun n hn => hn.set i hw rfl
  have hlength : (s.workers.set i w).length = s.workers.length := List.length_set
  cases c with
  | starting => exact absurd (hflag.symm.trans h.1.1) Bool.noConfusion
  | testing => exact absurd (hflag.symm.trans h.1.1) Bool.noConfusion
  | asking => exact absurd (hflag.symm.trans h.1.1) Bool.noConfusion
  | sleeping till => exact absurd (hflag.symm.trans h.1.1) Bool.noConfusion
  | joining j since => exact ⟨h.1, hdead j h.2⟩
  | killing j since => exact ⟨h.1, hdead (j + 1) h.2⟩
  | joiningGpu since => exact ⟨h.1, by rw [hlength]; exact hdead _ h.2⟩
  | logging => exact ⟨h.1, h.2.1, by rw [hlength]; exact hdead _ h.2.2⟩
  | ended returned =>
    exact h.imp id fun hs => ⟨hs.1, by rw [hlength]; exact hdead _ hs.2.1, hs.2.2⟩

theorem Fits.gpu {c : Control} (h : Fits cfg s c) (g : Gpu) : Fits cfg { s with gpu := g } c := by
  cases c <;> exact h

theorem invariant_begin (cfg : Settings) (now : ℚ) : Invariant cfg (begin cfg now) where
  time := le_rfl
  burns _ _ hw := absurd hw List.not_mem_nil
  sleeps _ := Or.inl rfl
  fits := ⟨⟨rfl, rfl⟩, rfl⟩

theorem Invariant.enterFinally (h : Invariant cfg s) (hs : s.startRaised = false) {raised : Bool}
    (hearly : raised = false → deadline cfg s ≤ s.now) : Invariant cfg (enterFinally s raised) where
  time := h.time
  burns hf := absurd hf.symm Bool.false_ne_true
  sleeps := h.sleeps
  fits := ⟨⟨rfl, hs, hearly⟩, fun _ hj => absurd hj (Nat.not_lt_zero _)⟩

theorem Invariant.afterJoins (h : Invariant cfg s) (hs : Stopping cfg s)
    (hdead : Dead s s.workers.length) : Invariant cfg (afterJoins s) where
  time := h.time
  burns hf := absurd (hs.1.symm.trans hf) Bool.noConfusion
  sleeps := h.sleeps
  fits := by
    have hcontrol : (HeatFill.afterJoins s).control =
        if s.raised then .ended false else .logging := rfl
    rw [hcontrol]
    split_ifs with hr
    · exact Or.inr ⟨hs, hdead, fun hf => absurd hf Bool.false_ne_true⟩
    · exact ⟨hs, Bool.eq_false_of_not_eq_true hr, hdead⟩

theorem Invariant.nextWorker (h : Invariant cfg s) (hs : Stopping cfg s) {i : ℕ}
    (hdead : Dead s (i + 1)) : Invariant cfg (nextWorker s i) := by
  unfold HeatFill.nextWorker
  have hburns : s.stopFlag = false → ∀ w ∈ s.workers, w = .burning :=
    fun hf => absurd (hs.1.symm.trans hf) Bool.noConfusion
  split_ifs with hlt hgpu
  · exact ⟨h.time, hburns, h.sleeps, hs, hdead⟩
  · exact ⟨h.time, hburns, h.sleeps, hs, fun j hj => hdead j (hj.trans_le (Nat.le_of_not_lt hlt))⟩
  · exact h.afterJoins hs fun j hj => hdead j (hj.trans_le (Nat.le_of_not_lt hlt))

/-- The worker waited for has ended. -/
theorem Dead.succ {i : ℕ} (h : Dead s i) (hi : s.workers[i]? ≠ some .burning) : Dead s (i + 1) := by
  intro j hj
  rcases Nat.lt_succ_iff_lt_or_eq.mp hj with hj | rfl
  · exact h j hj
  · exact hi

theorem Invariant.joined (h : Invariant cfg s) (hu : joined s = some u) : Invariant cfg u := by
  have hfits := h.fits
  unfold HeatFill.joined at hu
  cases hc : s.control with
  | joining i since =>
    rw [hc] at hu hfits
    obtain ⟨hi, ⟨⟩⟩ := Option.ite_none_left_eq_some.mp hu
    exact h.nextWorker hfits.1 (hfits.2.succ hi)
  | killing i since =>
    rw [hc] at hu hfits
    obtain rfl := Option.some.inj hu
    exact h.nextWorker hfits.1 hfits.2
  | joiningGpu since =>
    rw [hc] at hu hfits
    obtain ⟨-, ⟨⟩⟩ := Option.ite_none_left_eq_some.mp hu
    exact h.afterJoins hfits.1 hfits.2
  | _ =>
    rw [hc] at hu
    cases hu

theorem Invariant.timedOut (h : Invariant cfg s) (hu : timedOut s = some u) : Invariant cfg u := by
  have hfits := h.fits
  unfold HeatFill.timedOut at hu
  cases hc : s.control with
  | joining i since =>
    rw [hc] at hu hfits
    obtain ⟨-, hu⟩ := Option.ite_none_right_eq_some.mp hu
    split_ifs at hu with hi
    · obtain rfl := Option.some.inj hu
      refine ⟨h.time, fun hf => absurd (hfits.1.1.symm.trans hf) Bool.noConfusion, h.sleeps,
        hfits.1, ?_⟩
      refine (hfits.2.set i Worker.noConfusion rfl).succ ?_
      rw [List.getElem?_set_self (List.getElem?_eq_some_iff.mp hi).1]
      exact fun heq => Worker.noConfusion (Option.some.inj heq)
    · obtain rfl := Option.some.inj hu
      exact h.nextWorker hfits.1 (hfits.2.succ hi)
  | killing i since =>
    rw [hc] at hu hfits
    obtain ⟨-, ⟨⟩⟩ := Option.ite_none_right_eq_some.mp hu
    exact h.nextWorker hfits.1 hfits.2
  | joiningGpu since =>
    rw [hc] at hu hfits
    obtain ⟨-, ⟨⟩⟩ := Option.ite_none_right_eq_some.mp hu
    exact h.afterJoins hfits.1 hfits.2
  | _ =>
    rw [hc] at hu
    cases hu

/-- A sleep that is asked for brings the clock one poll further, or to the deadline. -/
theorem paced_ask (h : Paced cfg s s.now) :
    Paced cfg { s with sleeps := s.sleeps + 1 } (s.now + requested cfg s) := by
  intro hp
  have hnow := h hp
  dsimp only [Paced, deadline, requested] at hnow ⊢
  push_cast
  rcases le_total cfg.pollSec (max 0 (s.start + cfg.durationSec - s.now)) with hle | hle
  · rw [min_eq_left hle]
    rcases min_le_iff.mp hnow with hd | hd
    · exact min_le_iff.mpr (Or.inl (by linarith))
    · exact min_le_iff.mpr (Or.inr (by linarith))
  · rw [min_eq_right hle]
    have hmax := le_max_right 0 (s.start + cfg.durationSec - s.now)
    exact min_le_iff.mpr (Or.inl (by linarith))

theorem Invariant.ask (h : Invariant cfg s) (hc : s.control = .asking) :
    Invariant cfg (ask cfg s) := by
  have hfits := h.fits
  rw [hc] at hfits
  unfold HeatFill.ask
  split_ifs
  · exact h.enterFinally hfits.1.2 fun hr => absurd hr.symm Bool.false_ne_true
  · refine ⟨h.time, h.burns, fun hp => Or.inr ?_, hfits.1, paced_ask hfits.2.1⟩
    have hbound := hfits.2.2 hp
    dsimp only
    push_cast
    linarith

theorem Invariant.test (h : Invariant cfg s) (hc : s.control = .testing) :
    Invariant cfg (if s.now < deadline cfg s then { s with control := .asking }
      else HeatFill.enterFinally s false) := by
  have hfits := h.fits
  rw [hc] at hfits
  split_ifs with hlt
  · refine ⟨h.time, h.burns, h.sleeps, hfits.1, hfits.2, fun hp => ?_⟩
    have hd : s.start + s.sleeps * cfg.pollSec ≤ s.now :=
      (min_le_iff.mp (hfits.2 hp)).resolve_left (not_le.mpr hlt)
    have hlt' : s.now < s.start + cfg.durationSec := hlt
    dsimp only
    linarith
  · exact h.enterFinally hfits.1.2 fun _ => le_of_not_gt hlt

theorem Invariant.startWorker (h : Invariant cfg s) (hc : s.control = .starting) (ok : Bool) :
    Invariant cfg (startWorker cfg s ok) := by
  have hfits := h.fits
  rw [hc] at hfits
  obtain ⟨⟨hflag, hraised⟩, hsleeps⟩ := hfits
  unfold HeatFill.startWorker
  cases ok with
  | false =>
    refine ⟨h.time, h.burns, h.sleeps, ?_⟩
    exact Or.inl ⟨rfl, hflag, rfl⟩
  | true =>
    have hburns : ∀ w ∈ s.workers ++ [.burning], w = .burning := by
      intro w hw
      rcases List.mem_append.mp hw with hw | hw
      · exact h.burns hflag w hw
      · exact List.mem_singleton.mp hw
    refine ⟨h.time, fun _ => hburns, h.sleeps, ?_⟩
    rw [if_pos rfl]
    split_ifs
    · exact ⟨⟨hflag, hraised⟩, hsleeps⟩
    · refine ⟨⟨hflag, hraised⟩, fun _ => min_le_iff.mpr (Or.inr ?_)⟩
      dsimp only
      rw [hsleeps, Nat.cast_zero, zero_mul, add_zero]
      exact h.time

theorem invariant_step (h : Invariant cfg s) {e : Event} (hu : step cfg s e = some u) :
    Invariant cfg u := by
  have hfits := h.fits
  cases e with
  | tick d =>
    obtain ⟨hd, ⟨⟩⟩ := Option.ite_none_right_eq_some.mp hu
    exact ⟨h.time.trans (le_add_of_nonneg_right hd), h.burns, h.sleeps, hfits.tick hd⟩
  | batch i =>
    rw [step] at hu
    split_ifs at hu with hi
    · obtain rfl := Option.some.inj hu
      exact ⟨h.time, fun hf => absurd (hi.1.symm.trans hf) Bool.noConfusion, h.sleeps,
        hfits.set hi.1 i Worker.noConfusion⟩
    · obtain rfl := Option.some.inj hu
      exact h
  | gpuRound unavailable =>
    rw [step] at hu
    split_ifs at hu
    · obtain rfl := Option.some.inj hu
      exact ⟨h.time, h.burns, h.sleeps, hfits.gpu .finished⟩
    · obtain rfl := Option.some.inj hu
      exact h
  | start ok =>
    obtain ⟨hc, ⟨⟩⟩ := Option.ite_none_right_eq_some.mp hu
    exact h.startWorker hc ok
  | test =>
    obtain ⟨hc, ⟨⟩⟩ := Option.ite_none_right_eq_some.mp hu
    exact h.test hc
  | ask =>
    obtain ⟨hc, ⟨⟩⟩ := Option.ite_none_right_eq_some.mp hu
    exact h.ask hc
  | wake =>
    rw [step] at hu
    cases hc : s.control with
    | sleeping till =>
      rw [hc] at hu hfits
      obtain ⟨htill, ⟨⟩⟩ := Option.ite_none_right_eq_some.mp hu
      exact ⟨h.time, h.burns, h.sleeps, hfits.1, hfits.2.mono htill⟩
    | _ =>
      rw [hc] at hu
      cases hu
  | interrupt =>
    have hraised : true = false → deadline cfg s ≤ s.now :=
      fun hr => absurd hr.symm Bool.false_ne_true
    rw [step] at hu
    cases hc : s.control with
    | testing =>
      rw [hc] at hu hfits
      obtain rfl := Option.some.inj hu
      exact h.enterFinally hfits.1.2 hraised
    | asking =>
      rw [hc] at hu hfits
      obtain rfl := Option.some.inj hu
      exact h.enterFinally hfits.1.2 hraised
    | sleeping till =>
      rw [hc] at hu hfits
      obtain rfl := Option.some.inj hu
      exact h.enterFinally hfits.1.2 hraised
    | _ =>
      rw [hc] at hu
      cases hu
  | joined => exact h.joined hu
  | timedOut => exact h.timedOut hu
  | log ok =>
    obtain ⟨hc, ⟨⟩⟩ := Option.ite_none_right_eq_some.mp hu
    rw [hc] at hfits
    exact ⟨h.time, h.burns, h.sleeps, Or.inr ⟨hfits.1, hfits.2.2, fun _ => hfits.2.1⟩⟩

/-- What a call leaves behind it. -/
structure Leaves (cfg : Settings) (s : Burn) : Prop where
  cold : ∀ returned, s.control = .ended returned → s.startRaised = false →
    s.stopFlag = true ∧ ∀ w ∈ s.workers, w ≠ .burning
  late : s.control = .ended true → deadline cfg s ≤ s.now
  abandoned : s.startRaised = true → s.stopFlag = false ∧ ∀ w ∈ s.workers, w = .burning
  warm : s.stopFlag = false → ∀ w ∈ s.workers, w = .burning
  few : 0 < cfg.pollSec → s.sleeps = 0 ∨ (s.sleeps - 1) * cfg.pollSec < cfg.durationSec

theorem Fits.flag_of_startRaised {c : Control} (h : Fits cfg s c) (hs : s.startRaised = true) :
    s.stopFlag = false := by
  cases c with
  | starting => exact h.1.1
  | testing => exact h.1.1
  | asking => exact h.1.1
  | sleeping till => exact h.1.1
  | joining i since => exact absurd (hs.symm.trans h.1.2.1) Bool.noConfusion
  | killing i since => exact absurd (hs.symm.trans h.1.2.1) Bool.noConfusion
  | joiningGpu since => exact absurd (hs.symm.trans h.1.2.1) Bool.noConfusion
  | logging => exact absurd (hs.symm.trans h.1.2.1) Bool.noConfusion
  | ended returned =>
    rcases h with h | h
    · exact h.2.1
    · exact absurd (hs.symm.trans h.1.2.1) Bool.noConfusion

theorem Invariant.leaves (h : Invariant cfg s) : Leaves cfg s where
  cold returned hc hs := by
    have hfits := h.fits
    rw [hc] at hfits
    rcases hfits with hraised | hclosed
    · exact absurd (hs.symm.trans hraised.1) Bool.noConfusion
    · exact ⟨hclosed.1.1, hclosed.2.1.all⟩
  late hc := by
    have hfits := h.fits
    rw [hc] at hfits
    rcases hfits with hraised | hclosed
    · exact absurd hraised.2.2.symm Bool.false_ne_true
    · exact hclosed.1.2.2 (hclosed.2.2 rfl)
  abandoned hs :=
    have hflag := h.fits.flag_of_startRaised hs
    ⟨hflag, h.burns hflag⟩
  warm := h.burns
  few hp := (h.sleeps hp).imp id fun hlt => by linarith

/-- In every run of a call, whatever its workers, its GPU thread and the clock do in between. -/
theorem leaves_of_exec {now : ℚ} {es : List Event}
    (hrun : Run.exec (step cfg) (begin cfg now) es = some s) : Leaves cfg s :=
  have hinv : Invariant cfg s :=
    Run.exec_preserves (fun _ _ _ h hu => invariant_step h hu) (invariant_begin cfg now) hrun
  hinv.leaves

/-- One worker reads the flag, one is killed. -/
theorem leaves_of_exec_killed : ∃ s : Burn, s.control = .ended true ∧
    s.workers = [.exited, .killed] ∧ Leaves ⟨3 / 2, 2, false, 1⟩ s := by
  have hrun : (Run.exec (step ⟨3 / 2, 2, false, 1⟩) (begin ⟨3 / 2, 2, false, 1⟩ 7)
      [.start true, .start true, .test, .ask, .batch 0, .tick 1, .wake, .test, .ask, .tick 1, .wake,
        .test, .batch 0, .joined, .tick 5, .timedOut, .joined, .log true]).any (fun s =>
      s.control = .ended true ∧ s.workers = [.exited, .killed]) = true := by decide +kernel
  obtain ⟨s, hs, hp⟩ := (Option.any_eq_true _ _).mp hrun
  have hends := of_decide_eq_true hp
  exact ⟨s, hends.1, hends.2, leaves_of_exec hs⟩

end HadcdAgent.HeatFill
