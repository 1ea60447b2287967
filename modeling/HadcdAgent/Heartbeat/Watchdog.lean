import HadcdAgent.Heartbeat.Offline

/-!
# The watchdog's clock

`Agent._heartbeat_loop` (`agent/agent.py`) with the time that its awaits take:
`notify_watchdog` is called at the end of each pass, and the systemd unit allows
`WatchdogSec` between two calls.
-/

namespace HadcdAgent.Heartbeat

open Lib HeatOverride Autonomous

/-! ### The loop with a clock -/

/-- The timeout of the HTTP client, `autonomous_chunk_sec`, `heartbeat_interval_sec`
and the unit's `WatchdogSec`. -/
structure Timing where
  postTimeoutSec : ℚ
  chunkSec : ℚ
  heartbeatIntervalSec : ℚ
  watchdogSec : ℚ

def shippedTiming : Timing := ⟨30, 120, 10, 90⟩

/-- A tick with the time taken by the POST, by `AutonomousMiner.stop` where the tick
awaits it, and by the sleep. -/
structure TimedTick (b : Timing) where
  tick : Tick
  post : ℚ
  stop : ℚ
  sleep : ℚ
  post_le : post ≤ b.postTimeoutSec
  stop_le : stop ≤ b.chunkSec + 30
  sleep_le : sleep ≤ b.heartbeatIntervalSec

/-- `now` is the moment at which the next pass begins, `pings` those of the calls of
`notify_watchdog`, the newest first. -/
structure Watch where
  agent : Agent
  now : ℚ
  pings : List ℚ

inductive WatchInput (b : Timing) where
  | tick (t : TimedTick b)
  | minerEnds

variable {b : Timing}

def elapsed (a : Agent) (t : TimedTick b) : ℚ :=
  t.post + (if stopsMiner a t.tick then t.stop else 0) + t.sleep

/-- A pass that an exception leaves comes to no call. -/
def watchTick (s : Settings) (w : Watch) (t : TimedTick b) : Watch :=
  let agent := (heartbeat s w.agent t.tick).agent
  let now := w.now + elapsed w.agent t
  ⟨agent, now, if agent.ended then w.pings else now :: w.pings⟩

def watchStep (s : Settings) (w : Watch) : WatchInput b → Option Watch
  | .tick t => if w.agent.ended then none else some (watchTick s w t)
  | .minerEnds => some { w with agent := { w.agent with minerActive := false } }

def watchStart (heat : Node) (env : EnvFiles) (now : ℚ) : Watch := ⟨start heat env, now, []⟩

/-- The call at the end of the pass comes in time after the one before. -/
def FedInTime (s : Settings) (w : Watch) : WatchInput b → Prop
  | .tick t => w.agent.ended = false → ∀ last rest next, w.pings = last :: rest →
      (watchTick s w t).pings = next :: w.pings → next - last ≤ b.watchdogSec
  | .minerEnds => True

/-- A pass that waits for the end of a mining chunk is short enough in all. -/
def StopsInTime (w : Watch) : WatchInput b → Prop
  | .tick t => w.agent.ended = false → w.pings ≠ [] → stopsMiner w.agent t.tick = true →
      t.tick.stopRaises = false → t.post + t.stop + t.sleep ≤ b.watchdogSec
  | .minerEnds => True

/-! ### The gap -/

theorem stopsMiner_handleResponse (default : PyFloat) (a : Agent) (t : Tick) :
    stopsMiner (handleResponse default a t).1 t = stopsMiner a t := by
  rw [stopsMiner, (handleResponse_frame default a t).2.1, stopsMiner]

theorem ended_heartbeat (s : Settings) (a : Agent) (t : Tick) :
    (heartbeat s a t).agent.ended = (a.ended || stopsMiner a t && t.stopRaises) := by
  have hended := (handleResponse_frame s.setbackTempC a t).2.2
  simp only [heartbeat, runMatrix, stopsMiner_handleResponse]
  by_cases h : (stopsMiner a t && t.stopRaises) = true
  · rw [if_pos h, h, Bool.or_true]
  · rw [if_neg h, Bool.eq_false_iff.mpr h, Bool.or_false]
    exact hended

/-- While the loop runs, a pass begins at the last call. -/
def Punctual (w : Watch) : Prop :=
  w.agent.ended = false → ∀ last rest, w.pings = last :: rest → w.now = last

theorem punctual_watchStep (s : Settings) (w : Watch) (i : WatchInput b) (w' : Watch)
    (h : Punctual w) (hw : watchStep s w i = some w') : Punctual w' := by
  cases i with
  | tick t =>
    obtain ⟨-, hw⟩ := Option.ite_none_left_eq_some.mp hw
    cases hw
    intro hend last rest hpings
    have hrun : (heartbeat s w.agent t.tick).agent.ended = false := hend
    simp only [watchTick, hrun, Bool.false_eq_true, if_false, List.cons.injEq] at hpings
    exact hpings.1
  | minerEnds =>
    cases hw
    exact h

theorem elapsed_of_stops {a : Agent} {t : TimedTick b} (h : stopsMiner a t.tick = true) :
    elapsed a t = t.post + t.stop + t.sleep := by
  rw [elapsed, if_pos h]

/-- A pass that stops no miner has only the POST and the sleep to wait for. -/
theorem elapsed_le (hb : b.postTimeoutSec + b.heartbeatIntervalSec ≤ b.watchdogSec) {a : Agent}
    {t : TimedTick b} (h : stopsMiner a t.tick = false) : elapsed a t ≤ b.watchdogSec := by
  have hpost := t.post_le
  have hsleep := t.sleep_le
  rw [elapsed, h]
  simp only [Bool.false_eq_true, if_false]
  linarith

theorem fedInTime_of_broken (s : Settings) {w : Watch} {t : TimedTick b}
    (h : (heartbeat s w.agent t.tick).agent.ended = true) : FedInTime s w (.tick t) := by
  have hsame : (watchTick s w t).pings = w.pings := by
    simp only [watchTick, h, if_true]
  intro _ last rest next _ hnext
  rw [hsame] at hnext
  have hlen := congrArg List.length hnext
  simp at hlen

theorem fedInTime_of_called (s : Settings) {w : Watch} (h : Punctual w) {t : TimedTick b}
    (hrun : w.agent.ended = false) (hcall : (heartbeat s w.agent t.tick).agent.ended = false) :
    FedInTime s w (.tick t) ↔ (w.pings ≠ [] → elapsed w.agent t ≤ b.watchdogSec) := by
  have hnext : (watchTick s w t).pings = (w.now + elapsed w.agent t) :: w.pings := by
    simp only [watchTick, hcall, Bool.false_eq_true, if_false]
  simp only [FedInTime, hrun, true_implies, hnext]
  cases hpings : w.pings with
  | nil => simp
  | cons last rest =>
    have hnow : w.now = last := h hrun last rest hpings
    simp only [List.cons.injEq, and_true, hnow]
    constructor
    · intro hgap _
      have hle := hgap last rest (last + elapsed w.agent t) ⟨rfl, rfl⟩ rfl
      linarith
    · rintro hle last' rest' next ⟨rfl, -⟩ rfl
      have helapsed := hle (List.cons_ne_nil last rest)
      linarith

theorem fedInTime_iff (hb : b.postTimeoutSec + b.heartbeatIntervalSec ≤ b.watchdogSec)
    (s : Settings) {w : Watch} (h : Punctual w) (i : WatchInput b) :
    FedInTime s w i ↔ StopsInTime w i := by
  cases i with
  | minerEnds => exact Iff.rfl
  | tick t =>
    by_cases hrun : w.agent.ended = false
    case neg => exact iff_of_true (fun he => absurd he hrun) (fun he => absurd he hrun)
    have hended : (heartbeat s w.agent t.tick).agent.ended =
        (stopsMiner w.agent t.tick && t.tick.stopRaises) := by
      rw [ended_heartbeat, hrun, Bool.false_or]
    cases hstops : stopsMiner w.agent t.tick with
    | false =>
      rw [hstops, Bool.false_and] at hended
      rw [fedInTime_of_called s h hrun hended]
      refine iff_of_true (fun _ => elapsed_le hb hstops) ?_
      intro _ _ hs
      rw [hstops] at hs
      cases hs
    | true =>
      rw [hstops, Bool.true_and] at hended
      cases hraises : t.tick.stopRaises with
      | true =>
        refine iff_of_true (fedInTime_of_broken s (hended.trans hraises)) ?_
        intro _ _ _ hno
        rw [hraises] at hno
        cases hno
      | false =>
        rw [fedInTime_of_called s h hrun (hended.trans hraises), elapsed_of_stops hstops]
        simp only [StopsInTime, hrun, hstops, hraises, true_implies]

/-- In every run at the shipped settings the watchdog is fed in time exactly when
each pass that waits for a mining chunk takes no more than the 90 s in all. -/
theorem fedInTime_iff_stopsInTime (s : Settings) (heat : Node) (env : EnvFiles) (now : ℚ)
    (inputs : List (WatchInput shippedTiming)) :
    Run.Along (watchStep s) (FedInTime s) (watchStart heat env now) inputs ↔
      Run.Along (watchStep s) StopsInTime (watchStart heat env now) inputs := by
  have hb : shippedTiming.postTimeoutSec + shippedTiming.heartbeatIntervalSec ≤
      shippedTiming.watchdogSec := by decide +kernel
  have h0 : Punctual (watchStart heat env now) := fun _ _ _ hl => by cases hl
  exact Run.along_congr (punctual_watchStep s) (fun _ i h => fedInTime_iff hb s h i) h0

def slowTick (post : Post) (moment : ℤ) : WatchInput shippedTiming :=
  .tick ⟨tickAt post moment, 30, 0, 10, by decide +kernel, by decide +kernel, by decide +kernel⟩

def reconnectTick (moment : ℤ) : WatchInput shippedTiming :=
  .tick ⟨tickAt (.status 200 none) moment, 0, 120, 10, by decide +kernel, by decide +kernel,
    by decide +kernel⟩

/-- Three POSTs time out, the miner has just begun a chunk, and the dispatcher is back. -/
theorem not_fedInTime_reconnect :
    ¬ Run.Along (watchStep shipped) (FedInTime shipped) (watchStart plainStart ⟨none, none⟩ 0)
      ([slowTick .raised 30, slowTick .raised 70, slowTick .raised 110] ++ [reconnectTick 120]) := by
  intro h
  have hlast := h.at rfl
  have hgap := hlast rfl 120 [80, 40] 250 (by decide +kernel) (by decide +kernel)
  exact absurd hgap (by decide +kernel)

end HadcdAgent.Heartbeat
