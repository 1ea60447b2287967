import HadcdAgent.Heartbeat.Offline

/-!
# Acknowledging a pending config

The handshake of `pending_config`: the response delivers it, a later heartbeat
acknowledges it, and the response to that one restarts the agent.
-/

namespace HadcdAgent.Heartbeat

open Lib HeatOverride

/-! ### The outcome of a write -/

def Writable (a : Agent) (b : Body) (t : Tick) : Prop :=
  heatOverrideRaises a.heat b.heat t.heatIo = false ∧ t.envIo = .works ∧
    (target a.env).isSome = true

/-- An exception other than an `OSError` of the read or the write leaves the handling
of the response, before the flag is set. -/
def Escapes (a : Agent) (b : Body) (t : Tick) : Prop :=
  heatOverrideRaises a.heat b.heat t.heatIo = true ∨ t.envIo = .existsRefused ∨
    (target a.env).isSome = true ∧ (t.envIo = .notUtf8 ∨ t.envIo = .unencodable)

instance (a : Agent) (b : Body) (t : Tick) : Decidable (Writable a b t) :=
  inferInstanceAs (Decidable (_ ∧ _))

instance (a : Agent) (b : Body) (t : Tick) : Decidable (Escapes a b t) :=
  inferInstanceAs (Decidable (_ ∨ _))

theorem written_iff (files : EnvFiles) (config : Dict Str Str) (io : EnvIo) :
    (applyPendingConfig files config io).2 = .written ↔
      io = .works ∧ (target files).isSome = true := by
  unfold applyPendingConfig
  cases io <;> cases target files <;> simp

theorem raised_iff (files : EnvFiles) (config : Dict Str Str) (io : EnvIo) :
    (applyPendingConfig files config io).2 = .raised ↔
      io = .existsRefused ∨ (target files).isSome = true ∧ (io = .notUtf8 ∨ io = .unencodable) := by
  unfold applyPendingConfig
  cases io <;> cases target files <;> simp

theorem target_writeTarget {files : EnvFiles} {content : Str} (h : target files = some content)
    (text : Str) : target (writeTarget files text) = some text := by
  obtain ⟨etc, dotEnv⟩ := files
  cases etc with
  | some e => rfl
  | none => rfl

theorem target_of_written {files : EnvFiles} {config : Dict Str Str} {io : EnvIo}
    (h : (applyPendingConfig files config io).2 = .written) :
    ∃ content, target files = some content ∧
      target (applyPendingConfig files config io).1 =
        some (EnvFile.applyPendingConfig content config) := by
  obtain ⟨rfl, hsome⟩ := (written_iff files config io).mp h
  obtain ⟨content, hc⟩ := Option.isSome_iff_exists.mp hsome
  refine ⟨content, hc, ?_⟩
  simp only [applyPendingConfig, hc]
  exact target_writeTarget hc _

/-! ### The handshake -/

/-- `written`: whether the last `pending_config` received was completely written,
`none` before the first. -/
structure Handshake where
  agent : Agent
  written : Option Bool

def receivedConfig (t : Tick) : Option (Body × Dict Str Str) :=
  (received t.post).bind fun b =>
    match b.pendingConfig with
    | .config c => some (b, c)
    | .falsy | .other => none

def handshakeTick (s : Settings) (h : Handshake) (t : Tick) : Handshake where
  agent := (heartbeat s h.agent t).agent
  written :=
    match receivedConfig t with
    | some (b, c) => some (!heatOverrideRaises h.agent.heat b.heat t.heatIo &&
        decide ((applyPendingConfig h.agent.env c t.envIo).2 = .written))
    | none => h.written

def handshake (s : Settings) (h : Handshake) (i : Input) : Option Handshake :=
  (step s h.agent i).map fun agent =>
    match i with
    | .tick t => handshakeTick s h t
    | .minerEnds | .restart => { h with agent := agent }

def handshakeStart (heat : Node) (env : EnvFiles) : Handshake := ⟨start heat env, none⟩

/-- The acknowledgement that the next heartbeat carries is true. -/
def Truthful (h : Handshake) : Prop :=
  h.agent.pendingConfigApplied = true → h.written = some true

/-- The heartbeat that is sent, the restart that is scheduled and the heartbeat that
comes next. -/
def AcksTruthfully (s : Settings) (h : Handshake) (i : Input) (h' : Handshake) : Prop :=
  match i with
  | .tick t =>
    ((heartbeat s h.agent t).sent.pendingConfigApplied = true → h.written = some true) ∧
    ((heartbeat s h.agent t).effects.restart = true → h'.written = some true) ∧ Truthful h'
  | .minerEnds | .restart => Truthful h'

/-- Each config that arrives is written, or its handling ends in an exception that
escapes while no acknowledgement is outstanding. -/
def ConfigsWritten (h : Handshake) : Input → Prop
  | .tick t => h.agent.ended = false → ∀ b c, receivedConfig t = some (b, c) →
      Writable h.agent b t ∨ Escapes h.agent b t ∧ h.agent.pendingConfigApplied = false
  | .minerEnds | .restart => True

/-! ### The flag after a response -/

theorem pendingConfigApplied_heartbeat (s : Settings) (a : Agent) (t : Tick) :
    (heartbeat s a t).agent.pendingConfigApplied =
      (handleResponse s.setbackTempC a t).1.pendingConfigApplied :=
  heartbeat_keeps Agent.pendingConfigApplied (fun _ _ _ _ => rfl) s a t

theorem handleMediaModels_ack (a : Agent) (restart : Bool) (m : PendingMediaModels) :
    (handleMediaModels a restart m).1.pendingConfigApplied = a.pendingConfigApplied ∧
    (handleMediaModels a restart m).2.restart = restart := by
  cases m <;> exact ⟨rfl, rfl⟩

/-- Without a config the flag can only fall, and it falls when a restart is scheduled. -/
theorem handleResponse_no_config (s : Settings) (a : Agent) {t : Tick}
    (h : receivedConfig t = none) :
    ((handleResponse s.setbackTempC a t).1.pendingConfigApplied = true →
      a.pendingConfigApplied = true) ∧
    ((handleResponse s.setbackTempC a t).2.restart = true → a.pendingConfigApplied = true) := by
  unfold handleResponse
  cases hr : received t.post with
  | none => exact ⟨id, fun h => by cases h⟩
  | some b =>
    simp only [handleBody]
    split
    · exact ⟨id, fun h => by cases h⟩
    · unfold handlePendingConfig
      cases hp : b.pendingConfig with
      | config c => simp [receivedConfig, hr, hp] at h
      | falsy =>
        obtain ⟨h1, h2⟩ := handleMediaModels_ack
          { a with heat := applyHeatOverride s.setbackTempC a.heat b.heat t.heatIo,
                   pendingConfigApplied := false } a.pendingConfigApplied b.pendingMediaModels
        simp only [h1, h2]
        exact ⟨fun h => (by cases h), id⟩
      | other =>
        obtain ⟨h1, h2⟩ := handleMediaModels_ack
          { a with heat := applyHeatOverride s.setbackTempC a.heat b.heat t.heatIo } false
          b.pendingMediaModels
        simp only [h1, h2]
        exact ⟨id, fun h => by cases h⟩

theorem receivedConfig_eq_some {t : Tick} {b : Body} {c : Dict Str Str}
    (h : receivedConfig t = some (b, c)) :
    received t.post = some b ∧ b.pendingConfig = .config c := by
  unfold receivedConfig at h
  obtain ⟨b', hb', h⟩ := Option.bind_eq_some_iff.mp h
  cases hp : b'.pendingConfig with
  | config c' =>
    simp only [hp, Option.some.injEq, Prod.mk.injEq] at h
    obtain ⟨rfl, rfl⟩ := h
    exact ⟨hb', hp⟩
  | falsy => simp [hp] at h
  | other => simp [hp] at h

/-- With a config the flag is set, unless an exception escapes. -/
theorem handleResponse_config (s : Settings) (a : Agent) {t : Tick} {b : Body} {c : Dict Str Str}
    (h : receivedConfig t = some (b, c)) :
    (handleResponse s.setbackTempC a t).2.restart = false ∧
    (handleResponse s.setbackTempC a t).1.pendingConfigApplied =
      (a.pendingConfigApplied || !decide (Escapes a b t)) := by
  obtain ⟨hr, hp⟩ := receivedConfig_eq_some h
  by_cases hraise : heatOverrideRaises a.heat b.heat t.heatIo = true
  · have hesc : Escapes a b t := Or.inl hraise
    simp [handleResponse, hr, handleBody, hraise, hesc]
  · by_cases hout : (applyPendingConfig a.env c t.envIo).2 = .raised
    · have hesc : Escapes a b t := Or.inr ((raised_iff _ _ _).mp hout)
      simp [handleResponse, hr, handleBody, hraise, handlePendingConfig, hp, hout, hesc]
    · have hesc : ¬ Escapes a b t := by
        rintro (he | he)
        · exact hraise he
        · exact hout ((raised_iff _ _ _).mpr he)
      simp [handleResponse, hr, handleBody, hraise, handlePendingConfig, hp, hout, hesc,
        handleMediaModels_ack]

theorem written_handshakeTick (s : Settings) (h : Handshake) {t : Tick} {b : Body}
    {c : Dict Str Str} (hc : receivedConfig t = some (b, c)) :
    (handshakeTick s h t).written = some (decide (Writable h.agent b t)) := by
  simp only [handshakeTick, hc]
  rw [Option.some.injEq, Bool.eq_iff_iff, decide_eq_true_iff, Bool.and_eq_true,
    decide_eq_true_iff, written_iff, Bool.not_eq_true', Writable]

/-! ### Along a run -/

theorem truthful_config_iff (s : Settings) (h : Handshake) {t : Tick} {b : Body}
    {c : Dict Str Str} (hc : receivedConfig t = some (b, c)) :
    Truthful (handshakeTick s h t) ↔
      Writable h.agent b t ∨ Escapes h.agent b t ∧ h.agent.pendingConfigApplied = false := by
  have hflag : (handshakeTick s h t).agent.pendingConfigApplied =
      (h.agent.pendingConfigApplied || !decide (Escapes h.agent b t)) := by
    rw [handshakeTick, pendingConfigApplied_heartbeat]
    exact (handleResponse_config s h.agent hc).2
  rw [Truthful, hflag, written_handshakeTick s h hc]
  by_cases hw : Writable h.agent b t
  · simp [hw]
  · by_cases he : Escapes h.agent b t <;> simp [hw, he]

theorem truthful_no_config (s : Settings) {h : Handshake} (hh : Truthful h) {t : Tick}
    (hc : receivedConfig t = none) : Truthful (handshakeTick s h t) := by
  have hw : (handshakeTick s h t).written = h.written := by
    simp only [handshakeTick, hc]
  intro hflag
  rw [handshakeTick, pendingConfigApplied_heartbeat] at hflag
  rw [hw]
  exact hh ((handleResponse_no_config s h.agent hc).1 hflag)

theorem handshake_tick_eq_some {s : Settings} {h h' : Handshake} {t : Tick}
    (hstep : handshake s h (.tick t) = some h') :
    h.agent.ended = false ∧ h' = handshakeTick s h t := by
  unfold handshake at hstep
  by_cases hend : h.agent.ended = true
  · simp [step, hend] at hstep
  · simp only [step, hend, Bool.false_eq_true, if_false, Option.map_some, Option.some.injEq] at hstep
    exact ⟨by simpa using hend, hstep.symm⟩

theorem acksTruthfully_step (s : Settings) {h h' : Handshake} {i : Input} (hh : Truthful h)
    (hg : ConfigsWritten h i) (hstep : handshake s h i = some h') : AcksTruthfully s h i h' := by
  cases i with
  | minerEnds =>
    cases hstep
    exact hh
  | restart =>
    simp only [handshake, step, restart, Option.map_map] at hstep
    cases hr : HeatOverride.restart h.agent.heat with
    | none => simp [hr] at hstep
    | some heat =>
      simp only [hr, Option.map_some, Option.some.injEq] at hstep
      rw [← hstep]
      intro hflag
      cases hflag
  | tick t =>
    obtain ⟨hend, rfl⟩ := handshake_tick_eq_some hstep
    refine ⟨hh, ?_, ?_⟩
    · intro hrestart
      cases hc : receivedConfig t with
      | none =>
        have hflag := (handleResponse_no_config s h.agent hc).2 hrestart
        simpa [handshakeTick, hc] using hh hflag
      | some bc =>
        have hno := (handleResponse_config s h.agent hc).1
        rw [show (handleResponse s.setbackTempC h.agent t).2.restart = true from hrestart] at hno
        cases hno
    · cases hc : receivedConfig t with
      | none => exact truthful_no_config s hh hc
      | some bc => exact (truthful_config_iff s h hc).mpr (hg hend bc.1 bc.2 hc)

/-- In every run the acknowledgements, and the restarts that follow them, are true
exactly when each config received is written or not acknowledged. -/
theorem acks_truthful_iff (s : Settings) (heat : Node) (env : EnvFiles) (inputs : List Input) :
    Run.AlongSteps (handshake s) (AcksTruthfully s) (handshakeStart heat env) inputs ↔
      Run.Along (handshake s) ConfigsWritten (handshakeStart heat env) inputs := by
  have hkeep : ∀ h i h', Truthful h → ConfigsWritten h i → handshake s h i = some h' →
      Truthful h' ∧ AcksTruthfully s h i h' := by
    intro h i h' hh hg hstep
    have hacks := acksTruthfully_step s hh hg hstep
    cases i with
    | tick t => exact ⟨hacks.2.2, hacks⟩
    | minerEnds => exact ⟨hacks, hacks⟩
    | restart => exact ⟨hacks, hacks⟩
  have hback : ∀ h i, Truthful h → (∀ h', handshake s h i = some h' → AcksTruthfully s h i h') →
      ConfigsWritten h i := by
    intro h i _ hall
    cases i with
    | minerEnds => trivial
    | restart => trivial
    | tick t =>
      intro hend b c hc
      have hstep : handshake s h (.tick t) = some (handshakeTick s h t) := by
        simp [handshake, step, hend]
      exact (truthful_config_iff s h hc).mp (hall _ hstep).2.2
  have h0 : Truthful (handshakeStart heat env) := fun hflag => by cases hflag
  exact Run.alongSteps_iff_guard hkeep hback h0

def configBody : Body :=
  ⟨⟨false, none⟩, .config (Dict.ofAssignments [("AGENT_CONCURRENCY", "2")]), .falsy⟩

theorem config_acked_unwritten :
    ¬ Run.AlongSteps (handshake shipped) (AcksTruthfully shipped)
      (handshakeStart plainStart ⟨none, none⟩)
      ([.tick (tickAt (.status 200 (some configBody)) 0)] ++ [.tick (tickAt .raised 10)]) := by
  intro h
  have hlast := h.at rfl
  exact absurd ((hlast _ rfl).1 rfl) (by decide)

end HadcdAgent.Heartbeat
