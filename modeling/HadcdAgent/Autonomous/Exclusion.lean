import HadcdAgent.Autonomous.Fallback
import HadcdAgent.Autonomous.Miner

/-!
# GPU mining beside the listing

The heartbeat, Vast.AI and work loops of `Agent` (`agent/agent.py`) and the task of
`AutonomousMiner._loop` (`agent/autonomous_mode.py`), interleaved. The matrix reads
the provider and acts in two steps, since `VastProvider.update` runs in a thread of
its own.
-/

namespace HadcdAgent.Exclusion

open Lib Vast Autonomous MiningLoop

/-! ### The system -/

/-- Where the heartbeat loop is: before the end of the POST, before the matrix, in
the matrix with `_vast_renting` read, in `autonomous_miner.stop`. -/
inductive Beat where
  | posting
  | handled (hbOk : Bool)
  | sampled (hbOk vastRenting : Bool)
  | stopping
  deriving DecidableEq

/-- `miner` is the task of `_loop` with its stop event, `assignments` the task types
of the assignments whose tasks have not reached the executor. -/
structure Machine where
  provider : VastProvider
  call : Call
  miner : Option Loop
  beat : Beat
  offlineSince : Option ℤ
  heatOverrideActive : Bool
  assignments : List Json

def start (enabled : Bool) (preListMicros : ℤ) : Machine :=
  ⟨Vast.initial enabled preListMicros, .idle, none, .posting, none, false, []⟩

inductive Input where
  | heartbeatOk (override : Option Override) (vacant : Option Bool)
  | heartbeatFailed
  | sample
  | act (now now' : ℤ)
  | stopped
  | miner (e : Event)
  | updateBegin (schedule : Option Schedule) (now : ℤ)
  | reply (tick : Tick)
  | updateFinish (stamp : ℤ) (price : Option (Option PyFloat))
  | poll (taskTypes : List Json)
  | runAssignment (i : ℕ)

def active (w : Machine) : Bool := w.miner.any fun l => l.point ≠ .exited

/-- `stop` of an active miner, up to its wait for the task. -/
def requestStop (w : Machine) : Machine :=
  { w with beat := .stopping, miner := w.miner.map fun l => { l with stopEvent := true } }

def stopMiner (w : Machine) : Machine := if active w then requestStop w else { w with beat := .posting }

def startMiner (after : ℤ) (w : Machine) (now now' : ℤ) : Machine :=
  let since := w.offlineSince.getD now
  let w := { w with beat := .posting, offlineSince := some since }
  if after ≤ now' - since && !active w && !w.heatOverrideActive then
    { w with miner := some MiningLoop.initial }
  else w

/-- The matrix with its reading of the provider. -/
def act (after : ℤ) (w : Machine) (hbOk renting : Bool) (now now' : ℤ) : Machine :=
  if hbOk then { stopMiner w with offlineSince := none }
  else if renting then stopMiner w
  else startMiner after w now now'

structure Settings where
  miner : AutonomousMiner
  fallbackAfter : ℤ

def step (s : Settings) (w : Machine) : Input → Option Machine
  | .heartbeatOk override vacant =>
    if w.beat = .posting then some { w with
      provider := if w.provider.enabled then
        (override.map (setOverride w.provider)).getD w.provider else w.provider
      heatOverrideActive := vacant.getD w.heatOverrideActive
      beat := .handled true }
    else none
  | .heartbeatFailed => if w.beat = .posting then some { w with beat := .handled false } else none
  | .sample =>
    match w.beat with
    | .handled hbOk => some { w with beat := .sampled hbOk (vastRenting w.provider) }
    | _ => none
  | .act now now' =>
    match w.beat with
    | .sampled hbOk renting => some (act s.fallbackAfter w hbOk renting now now')
    | _ => none
  | .stopped =>
    if w.beat = .stopping && !active w then some { w with beat := .posting, miner := none } else none
  | .miner .stop => none
  | .miner e =>
    (w.miner.bind (MiningLoop.step s.miner · e)).map fun l => { w with miner := some l }
  | .updateBegin schedule now =>
    if w.call = .idle then
      let begun := beginUpdate w.provider schedule now
      some { w with provider := begun.1, call := begun.2 }
    else none
  | .reply tick => some { w with call := answer tick w.call }
  | .updateFinish stamp price =>
    if returned w.call then
      some { w with provider := finishUpdate w.provider w.call stamp price, call := .idle }
    else none
  | .poll taskTypes => some { w with assignments := w.assignments ++ taskTypes }
  | .runAssignment i =>
    if i < w.assignments.length then some { w with assignments := w.assignments.eraseIdx i } else none

/-- The world of the matrix, as a heartbeat meets it. -/
def world (w : Machine) : World :=
  ⟨w.provider, w.call, false, 0, none, active w, w.offlineSince, w.heatOverrideActive⟩

/-- When nothing comes between the two steps, they are the fallback matrix. -/
theorem act_eq_fallback (after : ℤ) (w : Machine) (hbOk : Bool) (now now' : ℤ) :
    act after w hbOk (vastRenting w.provider) now now' =
      let f := fallback after (world w) hbOk now now'
      if f.2 then { w with
        beat := .posting, offlineSince := f.1.offlineSince, miner := some MiningLoop.initial }
      else if hbOk || vastRenting w.provider then
        { stopMiner w with offlineSince := f.1.offlineSince }
      else { w with beat := .posting, offlineSince := f.1.offlineSince } := by
  have hsince : (stopMiner w).offlineSince = w.offlineSince := by
    unfold stopMiner requestStop
    split_ifs <;> rfl
  cases hbOk with
  | true => rfl
  | false =>
    cases hr : vastRenting w.provider with
    | true =>
      have hf : fallback after (world w) false now now' = ({ world w with minerActive := false }, false) := by
        rw [fallback, if_neg (by decide)]
        exact if_pos hr
      rw [hf]
      change stopMiner w = { stopMiner w with offlineSince := w.offlineSince }
      rw [← hsince]
    | false =>
      have hcold : ¬ vastRenting (world w).provider = true := by
        rw [show (world w).provider = w.provider from rfl, hr]
        decide
      let since := w.offlineSince.getD now
      by_cases hdue : (after ≤ now' - since && !active w && !w.heatOverrideActive) = true
      · have hf : fallback after (world w) false now now' =
            ({ world w with offlineSince := some since, minerActive := true }, true) := by
          rw [fallback, if_neg (by decide), if_neg hcold]
          exact if_pos hdue
        rw [hf]
        exact if_pos hdue
      · have hf : fallback after (world w) false now now' =
            ({ world w with offlineSince := some since }, false) := by
          rw [fallback, if_neg (by decide), if_neg hcold]
          exact if_neg hdue
        rw [hf]
        exact if_neg hdue

/-- A chunk of the autonomous loop starts, or a dispatched assignment is given to
the executor. -/
def StartsGpuMining (w : Machine) : Input → Prop
  | .miner (.read measuredKw) =>
    (w.miner.any fun l => l.point = .reading) = true ∧ demanded measuredKw = true
  | .runAssignment i => w.assignments[i]? = some (.str "gpu_mining_fill")
  | _ => False

def Renting (s : VastProviderState) : Prop := s = .listed ∨ s = .listing

def NotWhileRenting (w : Machine) (i : Input) : Prop :=
  StartsGpuMining w i → ¬ Renting w.provider.state

/-! ### The condition -/

/-- The loop can come to another chunk: its stop event is not seen between the read
and the chunk. -/
def canChunk (l : Loop) : Bool :=
  l.point = .reading || (!l.stopEvent && l.point ≠ .exiting && l.point ≠ .exited)

def isGpuMiningFill : Json → Bool
  | .str taskType => taskType = "gpu_mining_fill".toList
  | _ => false

/-- Nothing is under way that may start GPU mining: no chunk, no decision of the
matrix, no assignment. -/
def quiet (w : Machine) : Bool :=
  (w.miner.all fun l => !canChunk l) &&
    !(w.beat = .sampled false false && !w.heatOverrideActive) &&
    !w.assignments.any isGpuMiningFill

/-- A listing begins only with nothing under way, and no GPU mining is polled while
the machine is listed. -/
def ListsQuietly (w : Machine) : Input → Prop
  | .updateBegin schedule now => action w.provider schedule now = .list → quiet w = true
  | .poll taskTypes => Renting w.provider.state → taskTypes.any isGpuMiningFill = false
  | _ => True

instance (s : VastProviderState) : Decidable (Renting s) :=
  inferInstanceAs (Decidable (s = .listed ∨ s = .listing))

instance (w : Machine) : ∀ i, Decidable (ListsQuietly w i)
  | .updateBegin schedule now =>
    inferInstanceAs (Decidable (action w.provider schedule now = .list → quiet w = true))
  | .poll taskTypes =>
    inferInstanceAs (Decidable (Renting w.provider.state → taskTypes.any isGpuMiningFill = false))
  | .heartbeatOk _ _ | .heartbeatFailed | .sample | .act _ _ | .stopped | .miner _ | .reply _
  | .updateFinish _ _ | .runAssignment _ => isTrue trivial

/-! ### The invariant -/

/-- While the machine is listed, nothing is under way. -/
structure Excluded (w : Machine) : Prop where
  disabled : w.provider.enabled = false → w.provider.state = .unlisted ∧ w.call = .idle
  inCall : CallState w.call w.provider.state
  alone : Renting w.provider.state → quiet w = true

theorem quiet_iff (w : Machine) : quiet w = true ↔
    (∀ l, w.miner = some l → canChunk l = false) ∧
      (w.beat = .sampled false false → w.heatOverrideActive = true) ∧
      w.assignments.any isGpuMiningFill = false := by
  unfold quiet
  cases w.miner <;> cases w.heatOverrideActive <;> simp [and_assoc]

theorem excluded_start (enabled : Bool) (preListMicros : ℤ) : Excluded (start enabled preListMicros) where
  disabled := fun _ => ⟨rfl, rfl⟩
  inCall := trivial
  alone := fun _ => rfl

theorem Excluded.of_quiet {w w' : Machine} (h : Excluded w) (hs : w'.provider.state = w.provider.state)
    (he : w'.provider.enabled = w.provider.enabled) (hc : w'.call = w.call)
    (hq : Renting w.provider.state → quiet w' = true) : Excluded w' where
  disabled := by rw [hs, he, hc]; exact h.disabled
  inCall := by rw [hs, hc]; exact h.inCall
  alone := by rw [hs]; exact hq

theorem vastRenting_of_renting {w : Machine} (h : Excluded w) (hr : Renting w.provider.state) :
    vastRenting w.provider = true := by
  have henabled : w.provider.enabled = true := by
    by_contra he
    have hun := (h.disabled (by simpa using he)).1
    rw [Renting, hun] at hr
    rcases hr with hr | hr
    · cases hr
    · cases hr
  rcases hr with hr | hr
  · simp [vastRenting, henabled, hr]
  · simp [vastRenting, henabled, hr]

/-! ### The miner's task -/

theorem canChunk_eq_false {l : Loop} (h : canChunk l = false) :
    l.point ≠ .reading ∧ (l.stopEvent = true ∨ l.point = .exiting ∨ l.point = .exited) := by
  unfold canChunk at h
  simp only [Bool.or_eq_false_iff, decide_eq_false_iff_not] at h
  refine ⟨h.1, ?_⟩
  cases hs : l.stopEvent with
  | true => exact Or.inl rfl
  | false =>
    have hend := h.2
    simp only [hs, Bool.not_false, Bool.true_and, Bool.and_eq_false_iff, decide_eq_false_iff_not,
      not_not] at hend
    exact Or.inr hend

theorem canChunk_leave (l : Loop) : canChunk (leave l) = false := by
  obtain ⟨point, heaterOn, stopEvent, acked⟩ := l
  cases heaterOn <;> cases stopEvent <;> rfl

theorem canChunk_again {l : Loop} (h : l.stopEvent = true) : canChunk (again l) = false := by
  rw [again, if_pos h]
  exact canChunk_leave l

theorem stopEvent_heaterService (l : Loop) (service : Service) (acked : Bool) :
    (heaterService l service acked).stopEvent = l.stopEvent := by
  cases acked <;> rfl

/-- A loop at one of its other points that cannot come to a chunk has been stopped. -/
theorem stopEvent_of_point {l : Loop} (h : canChunk l = false) (h1 : l.point ≠ .exiting)
    (h2 : l.point ≠ .exited) : l.stopEvent = true := by
  rcases (canChunk_eq_false h).2 with hs | he | he
  · exact hs
  · exact absurd he h1
  · exact absurd he h2

theorem canChunk_of_stopped {l : Loop} (hs : l.stopEvent = true) (hp : l.point ≠ .reading) :
    canChunk l = false := by
  simp [canChunk, hs, hp]

theorem canChunk_afterChunk {m : AutonomousMiner} {l : Loop} (h : l.stopEvent = true)
    (gpu cpu : ChunkResult) : canChunk (afterChunk m l gpu cpu) = false := by
  unfold afterChunk
  split
  · split
    · split
      · exact canChunk_of_stopped h (by simp)
      · exact canChunk_of_stopped h (by simp)
    · exact canChunk_of_stopped h (by simp)
  · exact canChunk_again h

theorem canChunk_answer {l l' : Loop} {acked : Bool} (h : canChunk l = false)
    (hl : answer l acked = some l') : canChunk l' = false := by
  unfold MiningLoop.answer at hl
  split at hl
  · rename_i hp
    cases hl
    refine canChunk_of_stopped ?_ (by simp)
    exact (stopEvent_heaterService l .turnOff acked).trans
      (stopEvent_of_point h (by rw [hp]; decide) (by rw [hp]; decide))
  · rename_i hp
    cases hl
    refine canChunk_of_stopped ?_ (by simp)
    exact (stopEvent_heaterService l .turnOn acked).trans
      (stopEvent_of_point h (by rw [hp]; decide) (by rw [hp]; decide))
  · cases hl
    simp [canChunk]
  · cases hl

theorem canChunk_cancel {l l' : Loop} {acked : Bool} (hl : cancel l acked = some l') :
    canChunk l' = false := by
  unfold cancel at hl
  split at hl
  · cases hl
    simp [canChunk]
  · cases hl
    exact canChunk_leave _
  · cases hl
    exact canChunk_leave _
  · cases hl
    simp [canChunk]
  · cases hl
  all_goals
    cases hl
    exact canChunk_leave l

theorem canChunk_step {m : AutonomousMiner} {l l' : Loop} {e : Event} (h : canChunk l = false)
    (hl : MiningLoop.step m l e = some l') : canChunk l' = false := by
  have hstopped := stopEvent_of_point h
  cases e with
  | resumed =>
    obtain ⟨hp, hl⟩ := Option.ite_none_right_eq_some.mp hl
    cases hl
    exact canChunk_again (hstopped (by rw [hp]; decide) (by rw [hp]; decide))
  | read measuredKw =>
    obtain ⟨hp, -⟩ := Option.ite_none_right_eq_some.mp hl
    exact absurd hp (canChunk_eq_false h).1
  | chunkDone gpu cpu =>
    obtain ⟨hp, hl⟩ := Option.ite_none_right_eq_some.mp hl
    cases hl
    exact canChunk_afterChunk (hstopped (by rw [hp]; decide) (by rw [hp]; decide)) _ _
  | answered acked => exact canChunk_answer h hl
  | timeout =>
    obtain ⟨hp, hl⟩ := Option.ite_none_right_eq_some.mp hl
    cases hl
    exact canChunk_again (hstopped (by rintro he; rw [he] at hp; cases hp)
      (by rintro he; rw [he] at hp; cases hp))
  | stopSeen =>
    obtain ⟨-, hl⟩ := Option.ite_none_right_eq_some.mp hl
    cases hl
    exact canChunk_leave l
  | burned =>
    obtain ⟨hp, hl⟩ := Option.ite_none_right_eq_some.mp hl
    cases hl
    exact canChunk_again (hstopped (by rw [hp]; decide) (by rw [hp]; decide))
  | stop =>
    obtain ⟨-, hl⟩ := Option.ite_none_left_eq_some.mp hl
    cases hl
    exact canChunk_of_stopped rfl (canChunk_eq_false h).1
  | cancel acked => exact canChunk_cancel hl

/-! ### One step -/

theorem quiet_of_beat {w w' : Machine} (h : quiet w = true) (hbeat : w'.beat ≠ .sampled false false)
    (hminer : w'.miner = w.miner) (hassigned : w'.assignments = w.assignments) :
    quiet w' = true := by
  obtain ⟨hchunk, -, hnone⟩ := (quiet_iff w).mp h
  rw [quiet_iff, hminer, hassigned]
  exact ⟨hchunk, fun hb => absurd hb hbeat, hnone⟩

theorem quiet_of_assignments {w : Machine} (h : quiet w = true) {assignments : List Json}
    (hnone : assignments.any isGpuMiningFill = false) :
    quiet { w with assignments := assignments } = true := by
  obtain ⟨hchunk, hdecision, -⟩ := (quiet_iff w).mp h
  exact (quiet_iff _).mpr ⟨hchunk, hdecision, hnone⟩

theorem quiet_of_miner {w : Machine} (h : quiet w = true) {miner : Option Loop}
    (hchunk : ∀ l, miner = some l → canChunk l = false) :
    quiet { w with miner := miner } = true := by
  obtain ⟨-, hdecision, hnone⟩ := (quiet_iff w).mp h
  exact (quiet_iff _).mpr ⟨hchunk, hdecision, hnone⟩

theorem quiet_stopMiner {w : Machine} (h : quiet w = true) : quiet (stopMiner w) = true := by
  unfold stopMiner
  split
  · refine quiet_of_beat (quiet_of_miner h ?_) (fun hb => by cases hb) rfl rfl
    intro l hl
    obtain ⟨l0, hl0, rfl⟩ := Option.map_eq_some_iff.mp hl
    exact canChunk_of_stopped rfl (canChunk_eq_false (((quiet_iff w).mp h).1 l0 hl0)).1
  · exact quiet_of_beat h (fun hb => by cases hb) rfl rfl

theorem quiet_startMiner {w : Machine} (h : quiet w = true) (hvacant : w.heatOverrideActive = true)
    (after now now' : ℤ) : quiet (startMiner after w now now') = true := by
  obtain ⟨hminer, -, hassigned⟩ := (quiet_iff w).mp h
  rw [quiet_iff]
  simp only [startMiner, hvacant, Bool.not_true, Bool.and_false, Bool.false_eq_true, if_false]
  exact ⟨hminer, fun _ => trivial, hassigned⟩

theorem quiet_act {w : Machine} {hbOk renting : Bool} (h : quiet w = true)
    (hbeat : w.beat = .sampled hbOk renting) (after now now' : ℤ) :
    quiet (act after w hbOk renting now now') = true := by
  obtain ⟨-, hdecision, -⟩ := (quiet_iff w).mp h
  unfold act
  cases hbOk with
  | true => exact quiet_stopMiner h
  | false =>
    cases renting with
    | true => exact quiet_stopMiner h
    | false => exact quiet_startMiner h (hdecision hbeat) after now now'

theorem provider_act (after : ℤ) (w : Machine) (hbOk renting : Bool) (now now' : ℤ) :
    (act after w hbOk renting now now').provider = w.provider ∧
      (act after w hbOk renting now now').call = w.call := by
  unfold act stopMiner requestStop startMiner
  dsimp only
  split_ifs <;> exact ⟨rfl, rfl⟩

theorem excluded_updateBegin {w : Machine} (h : Excluded w) {schedule : Option Schedule} {now : ℤ}
    (hg : ListsQuietly w (.updateBegin schedule now)) :
    Excluded { w with
      provider := (beginUpdate w.provider schedule now).1
      call := (beginUpdate w.provider schedule now).2 } := by
  have hact := state_of_action w.provider schedule now
  rw [beginUpdate]
  cases haction : action w.provider schedule now with
  | idle raised =>
    exact ⟨fun he => ⟨(h.disabled he).1, rfl⟩, trivial, h.alone⟩
  | list =>
    rw [haction] at hact
    exact ⟨fun he => absurd (he.symm.trans hact.1) (by decide), rfl, fun _ => hg haction⟩
  | unlist =>
    rw [haction] at hact
    exact ⟨fun he => absurd (he.symm.trans hact.1) (by decide), hact.2, h.alone⟩
  | drain =>
    rw [haction] at hact
    exact ⟨fun he => absurd (he.symm.trans hact.1) (by decide), hact.2, h.alone⟩

theorem renting_of_stateAfter {call : Call} {s : VastProviderState} (h : CallState call s)
    (hr : Renting (stateAfter s call)) : Renting s := by
  unfold stateAfter at hr
  split at hr
  · exact Or.inr h
  · rcases hr with hr | hr <;> cases hr
  · rcases hr with hr | hr <;> cases hr
  · rcases hr with hr | hr <;> cases hr
  · exact hr

theorem callState_answer {call : Call} {s : VastProviderState} (h : CallState call s) (tick : Tick) :
    CallState (answer tick call) s := by
  cases call <;> exact h

theorem excluded_miner {s : Settings} {w w' : Machine} {e : Event} (h : Excluded w)
    (hw : step s w (.miner e) = some w') : Excluded w' := by
  have hstep : ∃ l l', w.miner = some l ∧ MiningLoop.step s.miner l e = some l' ∧
      w' = { w with miner := some l' } := by
    cases e
    case stop => cases hw
    all_goals
      obtain ⟨l', hl', hw⟩ := Option.map_eq_some_iff.mp hw
      obtain ⟨l, hl, hstep⟩ := Option.bind_eq_some_iff.mp hl'
      exact ⟨l, l', hl, hstep, hw.symm⟩
  obtain ⟨l, l', hl, hstep, rfl⟩ := hstep
  refine h.of_quiet rfl rfl rfl fun hr => quiet_of_miner (h.alone hr) ?_
  intro l1 hl1
  cases hl1
  exact canChunk_step (((quiet_iff w).mp (h.alone hr)).1 l hl) hstep

theorem excluded_updateFinish {w : Machine} (h : Excluded w) (hret : returned w.call = true)
    (stamp : ℤ) (price : Option (Option PyFloat)) :
    Excluded { w with provider := finishUpdate w.provider w.call stamp price, call := .idle } := by
  refine ⟨?_, trivial, ?_⟩
  · intro he
    rw [enabled_finishUpdate] at he
    rw [(h.disabled he).2] at hret
    cases hret
  · intro hr
    rw [state_finishUpdate w.provider w.call stamp price] at hr
    exact h.alone (renting_of_stateAfter h.inCall hr)

theorem excluded_step (s : Settings) (w : Machine) (i : Input) (w' : Machine) (h : Excluded w)
    (hg : ListsQuietly w i) (hw : step s w i = some w') : Excluded w' := by
  cases i with
  | heartbeatOk override vacant =>
    obtain ⟨-, hw⟩ := Option.ite_none_right_eq_some.mp hw
    cases hw
    refine h.of_quiet ?_ ?_ rfl fun hr => quiet_of_beat (h.alone hr) (fun hb => by cases hb) rfl rfl
    · cases override <;> dsimp only [Option.map_none, Option.map_some, Option.getD] <;>
        split_ifs <;> rfl
    · cases override <;> dsimp only [Option.map_none, Option.map_some, Option.getD] <;>
        split_ifs <;> rfl
  | heartbeatFailed =>
    obtain ⟨-, hw⟩ := Option.ite_none_right_eq_some.mp hw
    cases hw
    exact h.of_quiet rfl rfl rfl fun hr =>
      quiet_of_beat (h.alone hr) (fun hb => by cases hb) rfl rfl
  | sample =>
    cases hb : w.beat with
    | handled hbOk =>
      simp only [step, hb, Option.some.injEq] at hw
      subst hw
      refine h.of_quiet rfl rfl rfl fun hr => quiet_of_beat (h.alone hr) ?_ rfl rfl
      intro hsampled
      rw [vastRenting_of_renting h hr] at hsampled
      cases hsampled
    | _ => simp [step, hb] at hw
  | act now now' =>
    cases hb : w.beat with
    | sampled hbOk renting =>
      simp only [step, hb, Option.some.injEq] at hw
      subst hw
      obtain ⟨hprovider, hcall⟩ := provider_act s.fallbackAfter w hbOk renting now now'
      refine h.of_quiet (by rw [hprovider]) (by rw [hprovider]) hcall ?_
      intro hr
      exact quiet_act (h.alone hr) hb s.fallbackAfter now now'
    | _ => simp [step, hb] at hw
  | stopped =>
    obtain ⟨-, hw⟩ := Option.ite_none_right_eq_some.mp hw
    cases hw
    refine h.of_quiet rfl rfl rfl fun hr => ?_
    have hquiet : quiet { w with miner := none } = true :=
      quiet_of_miner (h.alone hr) fun l hl => by cases hl
    exact quiet_of_beat hquiet (fun hb => by cases hb) rfl rfl
  | miner e => exact excluded_miner h hw
  | updateBegin schedule now =>
    obtain ⟨-, hw⟩ := Option.ite_none_right_eq_some.mp hw
    cases hw
    exact excluded_updateBegin h hg
  | reply tick =>
    cases hw
    refine ⟨?_, callState_answer h.inCall tick, h.alone⟩
    intro he
    obtain ⟨hun, hidle⟩ := h.disabled he
    exact ⟨hun, by rw [hidle]; rfl⟩
  | updateFinish stamp price =>
    obtain ⟨hret, hw⟩ := Option.ite_none_right_eq_some.mp hw
    cases hw
    exact excluded_updateFinish h hret stamp price
  | poll taskTypes =>
    cases hw
    refine h.of_quiet rfl rfl rfl fun hr => quiet_of_assignments (h.alone hr) ?_
    rw [List.any_append, ((quiet_iff w).mp (h.alone hr)).2.2, hg hr]
    rfl
  | runAssignment i =>
    obtain ⟨-, hw⟩ := Option.ite_none_right_eq_some.mp hw
    cases hw
    refine h.of_quiet rfl rfl rfl fun hr => quiet_of_assignments (h.alone hr) ?_
    have hassigned := ((quiet_iff w).mp (h.alone hr)).2.2
    rw [List.any_eq_false] at hassigned ⊢
    intro x hx
    exact hassigned x (List.mem_of_mem_eraseIdx hx)

theorem not_startsGpuMining {w : Machine} {i : Input} (h : quiet w = true) : ¬ StartsGpuMining w i := by
  obtain ⟨hminer, -, hassigned⟩ := (quiet_iff w).mp h
  cases i with
  | miner e =>
    cases e with
    | read measuredKw =>
      rintro ⟨hpoint, -⟩
      cases hl : w.miner with
      | none =>
        rw [hl] at hpoint
        cases hpoint
      | some l =>
        rw [hl] at hpoint
        exact (canChunk_eq_false (hminer l hl)).1 (of_decide_eq_true hpoint)
    | _ => exact fun hs => hs
  | runAssignment i =>
    intro hs
    have hnot := List.any_eq_false.mp hassigned _ (List.mem_of_getElem? hs)
    exact hnot (by decide)
  | _ => exact fun hs => hs

/-! ### What breaks the condition can break the exclusion -/

/-- Some continuation starts GPU mining while the machine is listed. -/
def CanBreak (s : Settings) (w : Machine) : Prop :=
  ∃ inputs, ¬ Run.Along (step s) NotWhileRenting w inputs

section CanBreak

variable {s : Settings} {w : Machine} {l l' : Loop}

theorem canBreak_of_step {t : Machine} {i : Input} (ht : step s w i = some t)
    (h : CanBreak s t) : CanBreak s w := by
  obtain ⟨rest, hrest⟩ := h
  exact ⟨i :: rest, fun hall => hrest (hall.2 t ht)⟩

theorem canBreak_of_starts (hr : Renting w.provider.state) {i : Input} (hi : StartsGpuMining w i) :
    CanBreak s w :=
  ⟨[i], fun hall => hall.1 hi hr⟩

theorem step_miner {e : Event} (he : e ≠ .stop) (hl : w.miner = some l)
    (hstep : MiningLoop.step s.miner l e = some l') :
    step s w (.miner e) = some { w with miner := some l' } := by
  cases e
  case stop => exact absurd rfl he
  all_goals simp only [step, hl, Option.bind_some, hstep, Option.map_some]

theorem canBreak_reading (hr : Renting w.provider.state) (hl : w.miner = some l)
    (hp : l.point = .reading) : CanBreak s w := by
  refine canBreak_of_starts hr (i := .miner (.read (some (.fin 1)))) ⟨?_, by decide⟩
  rw [hl]
  exact decide_eq_true hp

theorem canBreak_again (hr : Renting w.provider.state) {e : Event} (he : e ≠ .stop)
    (hl : w.miner = some l) (hs : l.stopEvent = false)
    (hstep : MiningLoop.step s.miner l e = some (again l)) : CanBreak s w := by
  have hagain : again l = { l with point := .reading } := by
    rw [again, hs]
    rfl
  rw [hagain] at hstep
  exact canBreak_of_step (step_miner he hl hstep) (canBreak_reading hr rfl rfl)

theorem canBreak_waiting (hr : Renting w.provider.state) (hl : w.miner = some l)
    (hs : l.stopEvent = false) (hp : waiting l.point = true) : CanBreak s w :=
  canBreak_again hr (e := .timeout) (by simp) hl hs (by rw [MiningLoop.step, if_pos hp])

/-- A loop that has not been stopped comes back to its thermostat. -/
theorem canBreak_canChunk (hr : Renting w.provider.state) (hl : w.miner = some l)
    (hc : canChunk l = true) : CanBreak s w := by
  by_cases hreading : l.point = .reading
  · exact canBreak_reading hr hl hreading
  have hrest : l.stopEvent = false ∧ l.point ≠ .exiting ∧ l.point ≠ .exited := by
    simpa [canChunk, hreading, and_assoc] using hc
  obtain ⟨hs, hexiting, hexited⟩ := hrest
  cases hp : l.point with
  | reading => exact absurd hp hreading
  | exiting => exact absurd hp hexiting
  | exited => exact absurd hp hexited
  | created => exact canBreak_again hr (e := .resumed) (by simp) hl hs (by rw [MiningLoop.step, if_pos hp])
  | burning => exact canBreak_again hr (e := .burned) (by simp) hl hs (by rw [MiningLoop.step, if_pos hp])
  | mining =>
    refine canBreak_again hr (e := .chunkDone (.returns false) (.returns false)) (by simp) hl hs ?_
    rw [MiningLoop.step, if_pos hp]
    rfl
  | idle => exact canBreak_waiting hr hl hs (by rw [hp]; rfl)
  | holding => exact canBreak_waiting hr hl hs (by rw [hp]; rfl)
  | turningOff =>
    have hstep : MiningLoop.step s.miner l (.answered true) =
        some { heaterService l .turnOff true with heaterOn := false, point := .idle } := by
      simp only [MiningLoop.step, MiningLoop.answer, hp]
    exact canBreak_of_step (step_miner (by simp) hl hstep) (canBreak_waiting hr rfl hs rfl)
  | turningOn =>
    have hstep : MiningLoop.step s.miner l (.answered true) =
        some { heaterService l .turnOn true with heaterOn := true, point := .holding } := by
      simp only [MiningLoop.step, MiningLoop.answer, hp]
    exact canBreak_of_step (step_miner (by simp) hl hstep) (canBreak_waiting hr rfl hs rfl)

theorem canBreak_idleDecision (hr : Renting w.provider.state) (hb : w.beat = .sampled false false)
    (hv : w.heatOverrideActive = false) (ha : active w = false) : CanBreak s w := by
  let since := w.offlineSince.getD 0
  have hdue : startMiner s.fallbackAfter w 0 (since + s.fallbackAfter) = { w with
      beat := .posting, offlineSince := some since, miner := some MiningLoop.initial } := by
    refine if_pos ?_
    change (decide (s.fallbackAfter ≤ since + s.fallbackAfter - since) && !active w &&
      !w.heatOverrideActive) = true
    rw [ha, hv]
    simp
  have hact : step s w (.act 0 (since + s.fallbackAfter)) = some { w with
      beat := .posting, offlineSince := some since, miner := some MiningLoop.initial } := by
    rw [← hdue]
    simp only [step, hb, act, Bool.false_eq_true, if_false]
  exact canBreak_of_step hact (canBreak_canChunk hr rfl rfl)

theorem cancel_of_ne_exited (hp : l.point ≠ .exited) :
    ∃ l', cancel l true = some l' ∧ (l'.point = .exiting ∨ l'.point = .exited) := by
  have hleave : ∀ k : Loop, (leave k).point = .exiting ∨ (leave k).point = .exited := by
    intro k
    cases hk : k.heaterOn <;> simp [leave, hk]
  unfold cancel
  cases h : l.point with
  | exited => exact absurd h hp
  | created => exact ⟨_, rfl, Or.inr rfl⟩
  | exiting => exact ⟨_, rfl, Or.inr rfl⟩
  | _ => exact ⟨_, rfl, hleave _⟩

theorem canBreak_exiting (hr : Renting w.provider.state) (hb : w.beat = .sampled false false)
    (hv : w.heatOverrideActive = false) (hl : w.miner = some l)
    (hp : l.point = .exiting ∨ l.point = .exited) : CanBreak s w := by
  rcases hp with hp | hp
  · have hstep : MiningLoop.step s.miner l (.answered true) =
        some { heaterService l .turnOff true with point := .exited } := by
      simp only [MiningLoop.step, MiningLoop.answer, hp]
    refine canBreak_of_step (step_miner (by simp) hl hstep) ?_
    exact canBreak_idleDecision hr hb hv (by simp [active])
  · exact canBreak_idleDecision hr hb hv (by simp [active, hl, hp])

theorem canBreak_decision (hr : Renting w.provider.state) (hb : w.beat = .sampled false false)
    (hv : w.heatOverrideActive = false) : CanBreak s w := by
  cases hl : w.miner with
  | none => exact canBreak_idleDecision hr hb hv (by simp [active, hl])
  | some l =>
    by_cases hp : l.point = .exited
    · exact canBreak_exiting hr hb hv hl (Or.inr hp)
    · obtain ⟨l', hcancel, hp'⟩ := cancel_of_ne_exited hp
      have hstep : MiningLoop.step s.miner l (.cancel true) = some l' := hcancel
      refine canBreak_of_step (step_miner (by simp) hl hstep) ?_
      exact canBreak_exiting hr hb hv rfl hp'

theorem canBreak_assigned (hr : Renting w.provider.state)
    (h : w.assignments.any isGpuMiningFill = true) : CanBreak s w := by
  obtain ⟨taskType, hmem, hgpu⟩ := List.any_eq_true.mp h
  obtain ⟨i, hi, hat⟩ := List.mem_iff_getElem.mp hmem
  refine canBreak_of_starts hr (i := .runAssignment i) ?_
  cases taskType with
  | str t =>
    have ht : t = "gpu_mining_fill".toList := of_decide_eq_true hgpu
    rw [StartsGpuMining, List.getElem?_eq_getElem hi, hat, ht]
  | _ => cases hgpu

theorem canBreak_of_not_quiet (hr : Renting w.provider.state) (hq : quiet w = false) :
    CanBreak s w := by
  have hnot : ¬ ((∀ l, w.miner = some l → canChunk l = false) ∧
      (w.beat = .sampled false false → w.heatOverrideActive = true) ∧
      w.assignments.any isGpuMiningFill = false) := by
    rw [← quiet_iff, hq]
    decide
  by_cases hassigned : w.assignments.any isGpuMiningFill = true
  · exact canBreak_assigned hr hassigned
  by_cases hdecision : w.beat = .sampled false false ∧ w.heatOverrideActive = false
  · exact canBreak_decision hr hdecision.1 hdecision.2
  · have hminer : ∃ l, w.miner = some l ∧ canChunk l = true := by
      by_contra hno
      refine hnot ⟨?_, ?_, by simpa using hassigned⟩
      · intro l hl
        by_contra hc
        exact hno ⟨l, hl, by simpa using hc⟩
      · intro hb
        by_contra hv
        exact hdecision ⟨hb, by simpa using hv⟩
    obtain ⟨l, hl, hc⟩ := hminer
    exact canBreak_canChunk hr hl hc

/-- A step that does not meet the condition can be gone on from to a violation. -/
theorem canBreak_of_not_listsQuietly {i : Input} {t : Machine} (hi : ¬ ListsQuietly w i)
    (ht : step s w i = some t) : CanBreak s t := by
  cases i with
  | updateBegin schedule now =>
    have hlist : action w.provider schedule now = .list ∧ quiet w = false := by
      simpa [ListsQuietly] using hi
    obtain ⟨-, ht⟩ := Option.ite_none_right_eq_some.mp ht
    cases ht
    refine canBreak_of_not_quiet ?_ hlist.2
    rw [beginUpdate, hlist.1]
    exact Or.inr rfl
  | poll taskTypes =>
    have hpoll : Renting w.provider.state ∧ taskTypes.any isGpuMiningFill = true := by
      simpa [ListsQuietly] using hi
    cases ht
    refine canBreak_assigned hpoll.1 ?_
    rw [List.any_append, hpoll.2, Bool.or_true]
  | _ => exact absurd trivial hi

end CanBreak

/-- In every interleaving in which listings begin quietly and none of its GPU mining
is polled beside them, no GPU mining starts while the machine is listed; from any
other step some continuation starts it. -/
theorem notWhileRenting_of_listsQuietly {s : Settings} {enabled : Bool} {preListMicros : ℤ}
    {inputs : List Input}
    (hg : Run.Along (step s) ListsQuietly (start enabled preListMicros) inputs) :
    Run.Along (step s) NotWhileRenting (start enabled preListMicros) inputs ∧
      ∀ w i t, step s w i = some t → ¬ ListsQuietly w i → CanBreak s t := by
  have hprop : ∀ w i, Excluded w → ListsQuietly w i → NotWhileRenting w i :=
    fun _ _ h _ hs hr => not_startsGpuMining (h.alone hr) hs
  constructor
  · exact Run.along_of_invariant (excluded_step s) hprop (excluded_start enabled preListMicros) hg
  · intro w i t ht hi
    exact canBreak_of_not_listsQuietly hi ht

def shipped : Settings := ⟨⟨[], [], []⟩, 60⟩

/-- The dispatcher is away for a minute, and the miner's task has begun. -/
def offlineMinute : List Input :=
  [.heartbeatFailed, .sample, .act 0 0, .heartbeatFailed, .sample, .act 60 60, .miner .resumed]

def beginListing : Input := .updateBegin (some ⟨true, .absent⟩) 0

def stoppedFirst : List Input :=
  offlineMinute ++ [.miner (.read (some (.fin 2))), .heartbeatOk none none, .sample, .act 70 70,
    .miner (.chunkDone (.returns false) (.returns false)), .stopped, beginListing]

theorem notWhileRenting_stoppedFirst :
    (Run.exec (step shipped) (start true 600000000) stoppedFirst).map (fun w => w.provider.state) =
      some .listing ∧
    Run.Along (step shipped) NotWhileRenting (start true 600000000) stoppedFirst :=
  ⟨by decide +kernel, (notWhileRenting_of_listsQuietly (by decide +kernel)).1⟩

/-- The weather lists the machine while the miner reads its thermostat. -/
theorem not_notWhileRenting_listedMidRead :
    ¬ Run.Along (step shipped) NotWhileRenting (start true 600000000)
      ((offlineMinute ++ [beginListing]) ++ [.miner (.read (some (.fin 2)))]) := by
  intro h
  have hlast := h.at rfl
  exact hlast ⟨rfl, rfl⟩ (Or.inr rfl)

end HadcdAgent.Exclusion
