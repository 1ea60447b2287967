import HadcdAgent.Heartbeat.Tick

/-!
# The offline threshold

When the fallback matrix starts the autonomous miner, told from the outcomes of the
heartbeats: `history` holds the moment each POST ended and whether it succeeded,
the newest first.
-/

namespace HadcdAgent.Heartbeat

open Lib HeatOverride Autonomous

/-- `inForce`: the last `heat_override` handled in this process was `"setback"`. -/
structure Observed where
  agent : Agent
  history : List (ℤ × Bool)
  inForce : Bool
  clock : ℤ

def observeTick (s : Settings) (o : Observed) (t : Tick) : Observed where
  agent := (heartbeat s o.agent t).agent
  history := (t.endedAt, hbOk t.post) :: o.history
  inForce := ((received t.post).map fun b => b.heat.setback).getD o.inForce
  clock := t.now'

def observe (s : Settings) (o : Observed) (i : Input) : Option Observed :=
  (step s o.agent i).map fun agent =>
    match i with
    | .tick t => observeTick s o t
    | .minerEnds => { o with agent := agent }
    | .restart => { o with agent := agent, inForce := false }

/-- Since a heartbeat that failed at or before this moment none has succeeded. -/
def FailingSince (history : List (ℤ × Bool)) (moment : ℤ) : Prop :=
  ∃ newer older failedAt, history = newer ++ (failedAt, false) :: older ∧
    (∀ h ∈ newer, h.2 = false) ∧ failedAt ≤ moment

/-- When a tick may start the miner, and when it must leave it stopped. -/
structure Threshold (s : Settings) (o : Observed) (t : Tick) : Prop where
  starts : (heartbeat s o.agent t).minerStarted = true →
    FailingSince (observeTick s o t).history (t.now' - s.autonomousFallbackAfter) ∧
    t.provider.1.state ≠ .listed ∧ t.provider.1.state ≠ .listing ∧
    (observeTick s o t).inForce = false
  online : hbOk t.post = true → (observeTick s o t).agent.minerActive = false
  renting : t.provider.1.state = .listed ∨ t.provider.1.state = .listing →
    (observeTick s o t).agent.minerActive = false

def ThresholdAt (s : Settings) (o : Observed) : Input → Prop
  | .tick t => o.agent.ended = false → Threshold s o t
  | .minerEnds | .restart => True

/-- The clock does not go back. -/
def Orderly (o : Observed) : Input → Prop
  | .tick t => o.clock ≤ t.endedAt ∧ t.endedAt ≤ t.now ∧ t.now ≤ t.now'
  | .minerEnds | .restart => True

instance (o : Observed) : ∀ i, Decidable (Orderly o i)
  | .tick t =>
    inferInstanceAs (Decidable (o.clock ≤ t.endedAt ∧ t.endedAt ≤ t.now ∧ t.now ≤ t.now'))
  | .minerEnds | .restart => isTrue trivial

def observeStart (heat : Node) (env : EnvFiles) (clock : ℤ) : Observed :=
  ⟨start heat env, [], false, clock⟩

/-! ### The timer's meaning -/

theorem FailingSince.cons {history : List (ℤ × Bool)} {moment : ℤ}
    (h : FailingSince history moment) (at' : ℤ) : FailingSince ((at', false) :: history) moment := by
  obtain ⟨newer, older, failedAt, rfl, hnewer, hle⟩ := h
  refine ⟨(at', false) :: newer, older, failedAt, rfl, ?_, hle⟩
  intro x hx
  rcases List.mem_cons.mp hx with rfl | hx
  · rfl
  · exact hnewer x hx

theorem failingSince_now (history : List (ℤ × Bool)) {at' moment : ℤ} (h : at' ≤ moment) :
    FailingSince ((at', false) :: history) moment :=
  ⟨[], history, at', rfl, by simp, h⟩

theorem FailingSince.mono {history : List (ℤ × Bool)} {moment moment' : ℤ}
    (h : FailingSince history moment) (hle : moment ≤ moment') : FailingSince history moment' := by
  obtain ⟨newer, older, failedAt, hh, hnewer, hm⟩ := h
  exact ⟨newer, older, failedAt, hh, hnewer, hm.trans hle⟩

/-- A running timer was set after a failure that no success has followed. -/
structure Timed (o : Observed) : Prop where
  timer : o.agent.ended = false → ∀ since, o.agent.offlineSince = some since →
    FailingSince o.history since
  flag : o.agent.heat.overrideActive = o.inForce

section Tick

variable (s : Settings) {o : Observed} {t : Tick}

theorem Timed.inForce (h : Timed o) :
    (handleResponse s.setbackTempC o.agent t).1.heat.overrideActive = (observeTick s o t).inForce := by
  rw [overrideActive_handleResponse, h.flag]
  rfl

theorem Timed.failing (h : Timed o) (hend : o.agent.ended = false) (hclock : t.endedAt ≤ t.now)
    (hok : hbOk t.post = false) :
    FailingSince (observeTick s o t).history (o.agent.offlineSince.getD t.now) := by
  have hhist : (observeTick s o t).history = (t.endedAt, false) :: o.history := by
    rw [observeTick, hok]
  rw [hhist]
  cases hsince : o.agent.offlineSince with
  | none => exact failingSince_now o.history hclock
  | some since => exact (h.timer hend since hsince).cons t.endedAt

theorem decided_observeTick (o : Observed) (t : Tick) :
    ∃ a r, Decided s.autonomousFallbackAfter a t r ∧ r.1 = (observeTick s o t).agent ∧
      r.2 = (heartbeat s o.agent t).minerStarted ∧ a.offlineSince = o.agent.offlineSince ∧
      a.heat = (handleResponse s.setbackTempC o.agent t).1.heat ∧ a.ended = o.agent.ended := by
  obtain ⟨hsince, -, hended⟩ := handleResponse_frame s.setbackTempC o.agent t
  exact ⟨_, _, decided_runMatrix s.autonomousFallbackAfter
    (handleResponse s.setbackTempC o.agent t).1 t, rfl, rfl, hsince, rfl, hended⟩

theorem Timed.observeTick (h : Timed o) (hend : o.agent.ended = false)
    (hclock : t.endedAt ≤ t.now) : Timed (observeTick s o t) := by
  obtain ⟨a, r, hdec, hagent, -, hsince, hheat, hended⟩ := decided_observeTick s o t
  have hflag : a.heat.overrideActive = (Heartbeat.observeTick s o t).inForce := by
    rw [hheat, h.inForce s]
  have hfail := h.failing s hend hclock
  rw [← hsince] at hfail
  constructor
  · rw [← hagent]
    cases hdec with
    | broken hstop => intro he; cases he
    | online hok => intro _ since hs; cases hs
    | renting hok hrent =>
      intro _ since hs
      have hat : a.offlineSince.getD t.now = since := by simp only at hs; rw [hs]; rfl
      rw [← hat]
      exact hfail hok
    | starts hok hrent hafter hidle hvacant =>
      intro _ since hs
      cases hs
      exact hfail hok
    | waits hok hrent hnot =>
      intro _ since hs
      cases hs
      exact hfail hok
  · rw [← hagent, ← hflag]
    cases hdec <;> rfl

theorem Timed.threshold (h : Timed o) (hend : o.agent.ended = false)
    (hclock : t.endedAt ≤ t.now) : Threshold s o t := by
  obtain ⟨a, r, hdec, hagent, hstarted, hsince, hheat, -⟩ := decided_observeTick s o t
  have hfail := h.failing s hend hclock
  rw [← hsince] at hfail
  have hrenting : t.provider.1.state = .listed ∨ t.provider.1.state = .listing →
      vastRenting t.provider = true := by
    intro hs
    have he : t.provider.1.enabled = true := by
      by_contra he
      have hu := t.provider.2 (by simpa using he)
      rcases hs with hs | hs <;> rw [hu] at hs <;> cases hs
    simpa [vastRenting, he] using hs
  constructor
  · intro hst
    rw [← hstarted] at hst
    cases hdec with
    | starts hok hrent hafter hidle hvacant =>
      refine ⟨(hfail hok).mono (by omega), fun hs => ?_, fun hs => ?_, ?_⟩
      · rw [hrenting (Or.inl hs)] at hrent
        cases hrent
      · rw [hrenting (Or.inr hs)] at hrent
        cases hrent
      · rw [← h.inForce s, ← hheat]
        exact hvacant
    | _ => cases hst
  · intro hok
    rw [← hagent]
    cases hdec with
    | starts hoff => rw [hok] at hoff; cases hoff
    | waits hoff => rw [hok] at hoff; cases hoff
    | _ => rfl
  · intro hs
    have hrent := hrenting hs
    rw [← hagent]
    cases hdec with
    | starts _ hcold => rw [hrent] at hcold; cases hcold
    | waits _ hcold => rw [hrent] at hcold; cases hcold
    | _ => rfl

end Tick

theorem Timed.observe (s : Settings) {o o' : Observed} (h : Timed o) {i : Input}
    (hi : Orderly o i) (hstep : observe s o i = some o') : Timed o' := by
  unfold Heartbeat.observe at hstep
  cases i with
  | tick t =>
    simp only [step] at hstep
    by_cases hend : o.agent.ended = true
    · simp [hend] at hstep
    · simp only [hend, Bool.false_eq_true, if_false, Option.map_some, Option.some.injEq] at hstep
      rw [← hstep]
      exact h.observeTick s (by simpa using hend) hi.2.1
  | minerEnds =>
    cases hstep
    exact ⟨h.timer, h.flag⟩
  | restart =>
    simp only [step, restart] at hstep
    cases hr : HeatOverride.restart o.agent.heat with
    | none => simp [hr] at hstep
    | some heat =>
      simp only [hr, Option.map_some, Option.some.injEq] at hstep
      rw [← hstep]
      have hoff : heat.overrideActive = false := by
        unfold HeatOverride.restart at hr
        split at hr
        · cases hr
          rfl
        · cases hr
      exact ⟨fun _ since hs => (by cases hs), hoff⟩

/-- In every run of heartbeat ticks the miner is started only past the offline
threshold, and is not active after a success or beside a renter. -/
theorem offline_threshold (s : Settings) (heat : Node) (env : EnvFiles) (clock : ℤ)
    (inputs : List Input)
    (horderly : Run.Along (observe s) Orderly (observeStart heat env clock) inputs) :
    Run.Along (observe s) (ThresholdAt s) (observeStart heat env clock) inputs := by
  have hkeep : ∀ o i o', Timed o → Orderly o i → observe s o i = some o' → Timed o' :=
    fun o i o' h hi hstep => h.observe s hi hstep
  have hprop : ∀ o i, Timed o → Orderly o i → ThresholdAt s o i := by
    intro o i h hi
    cases i with
    | tick t => exact fun hend => h.threshold s hend hi.2.1
    | minerEnds => trivial
    | restart => trivial
  have h0 : Timed (observeStart heat env clock) := ⟨fun _ since hs => (by cases hs), rfl⟩
  exact Run.along_of_invariant hkeep hprop h0 horderly

def shipped : Settings := ⟨.fin 13, 60⟩

def tickAt (post : Post) (moment : ℤ) : Tick :=
  ⟨post, moment, works, .works, ⟨Vast.initial false 600000000, fun _ => rfl⟩, moment, moment, false⟩

def plainBody (setback : Bool) : Body := ⟨⟨setback, none⟩, .falsy, .falsy⟩

def plainStart : Node := HeatOverride.start "node" "token" [] (.fin 20)

theorem offline_threshold_minute :
    Run.Along (observe shipped) (ThresholdAt shipped) (observeStart plainStart ⟨none, none⟩ 0)
      [.tick (tickAt .raised 0), .tick (tickAt (.status 503 none) 60),
        .tick (tickAt (.status 200 (some (plainBody false))) 70)] :=
  offline_threshold shipped plainStart ⟨none, none⟩ 0 _ (by decide)

end HadcdAgent.Heartbeat
