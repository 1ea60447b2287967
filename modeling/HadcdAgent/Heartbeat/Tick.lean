import HadcdAgent.Autonomous.Fallback
import HadcdAgent.HeatOverride
import HadcdAgent.EnvFile

/-!
# One heartbeat

The loop body of `Agent._heartbeat_loop` (`agent/agent.py`): what the heartbeat
carries, the handling of its response with `_apply_heat_override` and
`_apply_pending_config`, and the fallback matrix. The provider is what the matrix
reads in that tick, as the Vast.AI loop has left it.
-/

namespace HadcdAgent.Heartbeat

open Lib HeatOverride Autonomous

/-! ### The agent.env candidates -/

/-- The texts of `/etc/hadcd-agent/agent.env` and `.env`, `none` where there is no
such file. -/
structure EnvFiles where
  etc : Option Str
  dotEnv : Option Str
  deriving DecidableEq

def target (files : EnvFiles) : Option Str := files.etc.or files.dotEnv

def writeTarget (files : EnvFiles) (text : Str) : EnvFiles :=
  if files.etc.isSome then { files with etc := some text } else { files with dotEnv := some text }

/-- How the file system answers: `exists` or `read_text` refused, a text that is
not UTF-8, `write_text` refused after it has left some text, and a text that the
encoder refuses, which leaves the file empty. -/
inductive EnvIo where
  | works
  | existsRefused
  | readRefused
  | notUtf8
  | writeRefused (left : Str)
  | unencodable
  deriving DecidableEq

inductive ConfigOutcome where
  | written
  | noFile
  | osError
  | raised
  deriving DecidableEq

/-- `_apply_pending_config`: only an `OSError` behind the existence test is caught. -/
def applyPendingConfig (files : EnvFiles) (config : Dict Str Str) (io : EnvIo) :
    EnvFiles × ConfigOutcome :=
  match io, target files with
  | .existsRefused, _ => (files, .raised)
  | _, none => (files, .noFile)
  | .works, some content =>
    (writeTarget files (EnvFile.applyPendingConfig content config), .written)
  | .readRefused, some _ => (files, .osError)
  | .notUtf8, some _ => (files, .raised)
  | .writeRefused left, some _ => (writeTarget files left, .osError)
  | .unencodable, some _ => (writeTarget files [], .raised)

/-! ### The provider as a tick finds it -/

/-- A provider without a CLI is never updated, so it stays as it was made. -/
def Possible (p : Vast.VastProvider) : Prop := p.enabled = false → p.state = .unlisted

theorem enabled_update (p : Vast.VastProvider) (tick : Vast.Tick) :
    (Vast.update p tick).provider.enabled = p.enabled := by
  rw [← Vast.finishUpdate_beginUpdate, Vast.enabled_finishUpdate]
  unfold Vast.beginUpdate
  cases Vast.action p tick.schedule tick.now <;> rfl

theorem possible_step {p : Vast.VastProvider} (hp : Possible p) (i : Vast.Input) :
    Possible (Vast.step p i) := by
  cases i with
  | setOverride override => exact hp
  | update tick =>
    intro hd
    have he : p.enabled = false := by rw [← hd, ← enabled_update p tick]; rfl
    have hu : Vast.update p tick = ⟨p, [], none, false⟩ := by
      simp [Vast.update, Vast.action, he]
    simp only [Vast.step, hu]
    exact hp he

theorem possible_run (enabled : Bool) (preListMicros : ℤ) (inputs : List Vast.Input)
    {p : Vast.VastProvider}
    (h : Run.exec (Run.total Vast.step) (Vast.initial enabled preListMicros) inputs = some p) :
    Possible p := by
  have hkeep : ∀ q i q', Possible q → Run.total Vast.step q i = some q' → Possible q' := by
    intro q i q' hq hstep
    cases hstep
    exact possible_step hq i
  have h0 : Possible (Vast.initial enabled preListMicros) := fun _ => rfl
  exact Run.exec_preserves hkeep h0 h

/-! ### The agent and its inputs -/

/-- `offlineSince` is the local of the loop, `minerActive` is
`autonomous_miner.active`, `ended` that an exception has left the loop. -/
structure Agent where
  heat : Node
  env : EnvFiles
  pendingConfigApplied : Bool
  pendingMediaModelsApplied : Bool
  offlineSince : Option ℤ
  minerActive : Bool
  ended : Bool

/-- `pending_config`: falsy, an object with its values as `str` renders them, or
another truthy value. -/
inductive PendingConfig where
  | falsy
  | config (c : Dict Str Str)
  | other

inductive PendingMediaModels where
  | falsy
  | queue (specs : List Json)
  | other

structure Body where
  heat : Response
  pendingConfig : PendingConfig
  pendingMediaModels : PendingMediaModels

/-- How the POST ends; the body is `none` when it is no JSON object. -/
inductive Post where
  | raised
  | status (code : ℕ) (body : Option Body)

/-- The outcomes of one tick. `endedAt` is the moment the POST has ended, `now` and
`now'` the readings of the monotonic clock in the matrix. -/
structure Tick where
  post : Post
  endedAt : ℤ
  heatIo : Outcomes
  envIo : EnvIo
  provider : {p : Vast.VastProvider // Possible p}
  now : ℤ
  now' : ℤ
  stopRaises : Bool

/-- What the heartbeat carries of the agent's acknowledgements. -/
structure Sent where
  pendingConfigApplied : Bool
  pendingMediaModelsApplied : Bool
  deriving DecidableEq

/-- What the handling of a response does besides: a restart scheduled, a model
sync started. -/
structure Effects where
  restart : Bool
  mediaSync : Option (List Json)

structure TickResult where
  agent : Agent
  sent : Sent
  effects : Effects
  minerStarted : Bool

/-! ### The source -/

/-- A thermostat write that raises leaves `_apply_heat_override` by its exception. -/
def heatOverrideRaises (n : Node) (r : Response) (o : Outcomes) : Bool :=
  decide (r.setback ≠ n.overrideActive) && decide (o.write = .raises) &&
    (r.setback || n.state.savedSetpointC.isSome)

def handleMediaModels (a : Agent) (restart : Bool) : PendingMediaModels → Agent × Effects
  | .queue specs => ({ a with pendingMediaModelsApplied := true }, ⟨restart, some specs⟩)
  | .falsy => ({ a with pendingMediaModelsApplied := false }, ⟨restart, none⟩)
  | .other => (a, ⟨restart, none⟩)

def handlePendingConfig (a : Agent) (b : Body) (io : EnvIo) : Agent × Effects :=
  match b.pendingConfig with
  | .config c =>
    let applied := applyPendingConfig a.env c io
    let a := { a with env := applied.1 }
    if applied.2 = .raised then (a, ⟨false, none⟩)
    else handleMediaModels { a with pendingConfigApplied := true } false b.pendingMediaModels
  | .falsy =>
    handleMediaModels { a with pendingConfigApplied := false } a.pendingConfigApplied
      b.pendingMediaModels
  | .other => handleMediaModels a false b.pendingMediaModels

def handleBody (default : PyFloat) (a : Agent) (b : Body) (tick : Tick) : Agent × Effects :=
  let handled := { a with heat := applyHeatOverride default a.heat b.heat tick.heatIo }
  if heatOverrideRaises a.heat b.heat tick.heatIo then (handled, ⟨false, none⟩)
  else handlePendingConfig handled b tick.envIo

def hbOk : Post → Bool
  | .raised => false
  | .status code _ => code = 200

/-- The body that the handlers get to see. -/
def received : Post → Option Body
  | .raised => none
  | .status code body => if code = 200 then body else none

def handleResponse (default : PyFloat) (a : Agent) (tick : Tick) : Agent × Effects :=
  match received tick.post with
  | some b => handleBody default a b tick
  | none => (a, ⟨false, none⟩)

/-- The matrix as the heartbeat loop meets it. -/
def matrixWorld (a : Agent) (tick : Tick) : World where
  provider := tick.provider
  call := .idle
  offerListed := false
  rentals := 0
  heartbeat := some (hbOk tick.post)
  minerActive := a.minerActive
  offlineSince := a.offlineSince
  heatOverrideActive := a.heat.overrideActive

/-- `stop` of an active miner is awaited in these branches. -/
def stopsMiner (a : Agent) (tick : Tick) : Bool :=
  a.minerActive && (hbOk tick.post || vastRenting tick.provider)

def runMatrix (after : ℤ) (a : Agent) (tick : Tick) : Agent × Bool :=
  if stopsMiner a tick && tick.stopRaises then ({ a with minerActive := false, ended := true }, false)
  else
    let r := fallback after (matrixWorld a tick) (hbOk tick.post) tick.now tick.now'
    ({ a with minerActive := r.1.minerActive, offlineSince := r.1.offlineSince }, r.2)

structure Settings where
  setbackTempC : PyFloat
  autonomousFallbackAfter : ℤ

def heartbeat (s : Settings) (a : Agent) (tick : Tick) : TickResult :=
  let handled := handleResponse s.setbackTempC a tick
  let decided := runMatrix s.autonomousFallbackAfter handled.1 tick
  ⟨decided.1, ⟨a.pendingConfigApplied, a.pendingMediaModelsApplied⟩, handled.2, decided.2⟩

/-- A new process with the state file of the old one, `none` when its load raises. -/
def restart (a : Agent) : Option Agent :=
  (HeatOverride.restart a.heat).map fun heat => ⟨heat, a.env, false, false, none, false, false⟩

/-! ### Runs -/

inductive Input where
  | tick (t : Tick)
  | minerEnds
  | restart

def step (s : Settings) (a : Agent) : Input → Option Agent
  | .tick t => if a.ended then none else some (heartbeat s a t).agent
  | .minerEnds => some { a with minerActive := false }
  | .restart => restart a

def start (heat : Node) (env : EnvFiles) : Agent :=
  ⟨{ heat with overrideActive := false }, env, false, false, none, false, false⟩

/-! ### What the handlers leave alone -/

theorem overrideActive_applyHeatOverride (default : PyFloat) (n : Node) (r : Response)
    (o : Outcomes) : (applyHeatOverride default n r o).overrideActive = r.setback := by
  unfold applyHeatOverride
  by_cases h : r.setback = n.overrideActive
  · rw [if_pos h, h]
  · rw [if_neg h]
    cases hs : r.setback with
    | true =>
      simp only [if_true]
      unfold setSetpoint capture persist setSaved
      split <;> split <;> (try split) <;> rfl
    | false =>
      simp only [Bool.false_eq_true, if_false]
      unfold restore persist setSaved setSetpoint
      split
      · rfl
      · split
        · rfl
        · split <;> split <;> rfl

/-- Both handlers of the queues keep the fields that the matrix reads. -/
structure SameMatrix (a a' : Agent) : Prop where
  heat : a'.heat = a.heat
  offlineSince : a'.offlineSince = a.offlineSince
  minerActive : a'.minerActive = a.minerActive
  ended : a'.ended = a.ended

theorem sameMatrix_handleMediaModels (a : Agent) (restart : Bool) (m : PendingMediaModels) :
    SameMatrix a (handleMediaModels a restart m).1 := by
  cases m <;> exact ⟨rfl, rfl, rfl, rfl⟩

theorem sameMatrix_handlePendingConfig (a : Agent) (b : Body) (io : EnvIo) :
    SameMatrix a (handlePendingConfig a b io).1 := by
  unfold handlePendingConfig
  cases b.pendingConfig with
  | falsy => cases b.pendingMediaModels <;> exact ⟨rfl, rfl, rfl, rfl⟩
  | other => exact sameMatrix_handleMediaModels a false b.pendingMediaModels
  | config c =>
    simp only
    split
    · exact ⟨rfl, rfl, rfl, rfl⟩
    · cases b.pendingMediaModels <;> exact ⟨rfl, rfl, rfl, rfl⟩

theorem handleResponse_frame (default : PyFloat) (a : Agent) (tick : Tick) :
    (handleResponse default a tick).1.offlineSince = a.offlineSince ∧
    (handleResponse default a tick).1.minerActive = a.minerActive ∧
    (handleResponse default a tick).1.ended = a.ended := by
  unfold handleResponse
  cases received tick.post with
  | none => exact ⟨rfl, rfl, rfl⟩
  | some b =>
    simp only [handleBody]
    split
    · exact ⟨rfl, rfl, rfl⟩
    · obtain ⟨-, h1, h2, h3⟩ := sameMatrix_handlePendingConfig
        { a with heat := applyHeatOverride default a.heat b.heat tick.heatIo } b tick.envIo
      exact ⟨h1, h2, h3⟩

theorem overrideActive_handleResponse (default : PyFloat) (a : Agent) (tick : Tick) :
    (handleResponse default a tick).1.heat.overrideActive =
      ((received tick.post).map fun b => b.heat.setback).getD a.heat.overrideActive := by
  unfold handleResponse
  cases received tick.post with
  | none => rfl
  | some b =>
    simp only [handleBody, Option.map_some, Option.getD_some]
    split
    · exact overrideActive_applyHeatOverride default a.heat b.heat tick.heatIo
    · rw [(sameMatrix_handlePendingConfig _ b tick.envIo).heat]
      exact overrideActive_applyHeatOverride default a.heat b.heat tick.heatIo

theorem hbOk_of_received {post : Post} {b : Body} (h : received post = some b) :
    hbOk post = true := by
  cases post with
  | raised => cases h
  | status code body =>
    by_cases hc : code = 200
    · simp [hbOk, hc]
    · simp [received, hc] at h

/-! ### The branches of the matrix -/

/-- The agent after the matrix and whether `start` was called. -/
inductive Decided (after : ℤ) (a : Agent) (tick : Tick) : Agent × Bool → Prop
  | broken (hstop : hbOk tick.post = true ∨ vastRenting tick.provider = true) :
      Decided after a tick ({ a with minerActive := false, ended := true }, false)
  | online (hok : hbOk tick.post = true) :
      Decided after a tick ({ a with minerActive := false, offlineSince := none }, false)
  | renting (hok : hbOk tick.post = false) (hrent : vastRenting tick.provider = true) :
      Decided after a tick ({ a with minerActive := false }, false)
  | starts (hok : hbOk tick.post = false) (hrent : vastRenting tick.provider = false)
      (hafter : after ≤ tick.now' - a.offlineSince.getD tick.now)
      (hidle : a.minerActive = false) (hvacant : a.heat.overrideActive = false) :
      Decided after a tick
        ({ a with minerActive := true, offlineSince := some (a.offlineSince.getD tick.now) }, true)
  | waits (hok : hbOk tick.post = false) (hrent : vastRenting tick.provider = false)
      (hnot : ¬ (after ≤ tick.now' - a.offlineSince.getD tick.now ∧
        a.minerActive = false ∧ a.heat.overrideActive = false)) :
      Decided after a tick
        ({ a with offlineSince := some (a.offlineSince.getD tick.now) }, false)

theorem fallbackDue_iff (after : ℤ) (w : World) (now now' : ℤ) :
    fallbackDue after w now now' = true ↔
      after ≤ now' - offlineFrom w now ∧ w.minerActive = false ∧ w.heatOverrideActive = false := by
  simp only [fallbackDue, Bool.and_eq_true, Bool.not_eq_true', decide_eq_true_eq, and_assoc]

theorem decided_runMatrix (after : ℤ) (a : Agent) (tick : Tick) :
    Decided after a tick (runMatrix after a tick) := by
  unfold runMatrix
  split
  case isTrue h =>
    simp only [stopsMiner, Bool.and_eq_true, Bool.or_eq_true] at h
    exact .broken h.1.2
  case isFalse h =>
    simp only
    by_cases hok : hbOk tick.post = true
    · have hf : fallback after (matrixWorld a tick) (hbOk tick.post) tick.now tick.now' =
          ({ matrixWorld a tick with minerActive := false, offlineSince := none }, false) := by
        rw [fallback, if_pos hok]
      rw [hf]
      exact .online hok
    have hoff : hbOk tick.post = false := Bool.eq_false_iff.mpr hok
    by_cases hrent : vastRenting tick.provider = true
    · have hf : fallback after (matrixWorld a tick) (hbOk tick.post) tick.now tick.now' =
          ({ matrixWorld a tick with minerActive := false }, false) := by
        rw [fallback, if_neg hok]
        exact if_pos hrent
      rw [hf]
      exact .renting hoff hrent
    have hcold : vastRenting tick.provider = false := Bool.eq_false_iff.mpr hrent
    have hf : fallback after (matrixWorld a tick) (hbOk tick.post) tick.now tick.now' =
        if fallbackDue after { matrixWorld a tick with
            offlineSince := some (a.offlineSince.getD tick.now) } tick.now tick.now' = true then
          ({ matrixWorld a tick with
              minerActive := true, offlineSince := some (a.offlineSince.getD tick.now) }, true)
        else
          ({ matrixWorld a tick with offlineSince := some (a.offlineSince.getD tick.now) }, false) := by
      rw [fallback, if_neg hok]
      exact if_neg hrent
    by_cases hdue : after ≤ tick.now' - a.offlineSince.getD tick.now ∧
        a.minerActive = false ∧ a.heat.overrideActive = false
    · rw [hf, if_pos ((fallbackDue_iff _ _ _ _).mpr hdue)]
      exact .starts hoff hcold hdue.1 hdue.2.1 hdue.2.2
    · rw [hf, if_neg fun h => hdue ((fallbackDue_iff _ _ _ _).mp h)]
      exact .waits hoff hcold hdue

/-- The matrix leaves all but its own fields as the handling of the response has left
them. -/
theorem heartbeat_keeps {β : Type} (f : Agent → β)
    (hf : ∀ (a : Agent) (minerActive : Bool) (offlineSince : Option ℤ) (ended : Bool),
      f ⟨a.heat, a.env, a.pendingConfigApplied, a.pendingMediaModelsApplied, offlineSince,
        minerActive, ended⟩ = f a) (s : Settings) (a : Agent) (t : Tick) :
    f (heartbeat s a t).agent = f (handleResponse s.setbackTempC a t).1 := by
  have hdec := decided_runMatrix s.autonomousFallbackAfter (handleResponse s.setbackTempC a t).1 t
  have hkeep : ∀ r, Decided s.autonomousFallbackAfter (handleResponse s.setbackTempC a t).1 t r →
      f r.1 = f (handleResponse s.setbackTempC a t).1 := by
    intro r hr
    cases hr <;> exact hf _ _ _ _
  exact hkeep _ hdec

theorem Decided.started_iff {after : ℤ} {a : Agent} {tick : Tick} {r : Agent × Bool}
    (h : Decided after a tick r) :
    r.2 = true ↔ hbOk tick.post = false ∧ vastRenting tick.provider = false ∧
      after ≤ tick.now' - a.offlineSince.getD tick.now ∧
      a.minerActive = false ∧ a.heat.overrideActive = false := by
  cases h with
  | broken hstop =>
    refine ⟨fun h => (by cases h), fun h => ?_⟩
    rcases hstop with hs | hs
    · rw [h.1] at hs
      cases hs
    · rw [h.2.1] at hs
      cases hs
  | online hok => simp [hok]
  | renting hok hrent => simp [hrent]
  | starts hok hrent hafter hidle hvacant => exact ⟨fun _ => ⟨hok, hrent, hafter, hidle, hvacant⟩, fun _ => rfl⟩
  | waits hok hrent hnot => exact ⟨fun h => (by cases h), fun h => absurd h.2.2 hnot⟩

/-- `start` is called in a tick that heard nothing, so on what the tick before left. -/
theorem minerStarted_iff (s : Settings) (a : Agent) (tick : Tick) :
    (heartbeat s a tick).minerStarted = true ↔
      hbOk tick.post = false ∧ vastRenting tick.provider = false ∧
      s.autonomousFallbackAfter ≤ tick.now' - a.offlineSince.getD tick.now ∧
      a.minerActive = false ∧ a.heat.overrideActive = false := by
  have hiff := (decided_runMatrix s.autonomousFallbackAfter
    (handleResponse s.setbackTempC a tick).1 tick).started_iff
  by_cases hok : hbOk tick.post = true
  · have hst : (heartbeat s a tick).minerStarted ≠ true := by
      intro h
      have hoff := (hiff.mp h).1
      rw [hok] at hoff
      cases hoff
    simp [hst, hok]
  · have hnone : handleResponse s.setbackTempC a tick = (a, ⟨false, none⟩) := by
      cases hr : received tick.post with
      | none => simp [handleResponse, hr]
      | some b => exact absurd (hbOk_of_received hr) hok
    rw [hnone] at hiff
    rw [← hiff, heartbeat, hnone]

end HadcdAgent.Heartbeat
