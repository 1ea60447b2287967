import HadcdAgent.Heartbeat.ConfigAck
import HadcdAgent.Heartbeat.MediaSync

/-!
# Acknowledging the media models

The handshake of `pending_media_models`: the response delivers a queue, a task
downloads its files, a later heartbeat acknowledges it. The tasks run between the
steps of the heartbeat loop and of each other.
-/

namespace HadcdAgent.Heartbeat

open Lib Lib.PyStr

/-! ### The agent and its tasks -/

/-- `awaiting`: a heartbeat has been sent and its response not been handled yet;
`queue` is the last one that a response to this process held. -/
structure MediaWorld where
  agent : Agent
  awaiting : Bool
  path : Str
  queue : Option (List Json)
  syncs : List Sync
  disk : ModelDisk

inductive MediaInput where
  | send
  | answer (t : Tick)
  | minerEnds
  | restart (path : Str)
  | sync (i : ℕ) (e : SyncEvent)

def deliveredQueue (t : Tick) : Option (List Json) :=
  match received t.post with
  | none => none
  | some b =>
    match b.pendingMediaModels with
    | .queue specs => some specs
    | .falsy | .other => none

def answered (env : MediaEnv) (w : MediaWorld) (t : Tick) : MediaWorld :=
  let r := heartbeat env.settings w.agent t
  { w with
    agent := r.agent
    awaiting := false
    queue := (deliveredQueue t).or w.queue
    syncs := w.syncs ++ (r.effects.mediaSync.map (launch w.path)).toList }

def mediaStep (env : MediaEnv) (w : MediaWorld) : MediaInput → Option MediaWorld
  | .send => if w.awaiting || w.agent.ended then none else some { w with awaiting := true }
  | .answer t => if w.awaiting then some (answered env w t) else none
  | .minerEnds => some { w with agent := { w.agent with minerActive := false } }
  | .restart path => (restart w.agent).map fun agent => ⟨agent, false, path, none, [], w.disk⟩
  | .sync i e =>
    match w.syncs[i]? with
    | none => none
    | some t =>
      (syncStep env w.disk t e).map fun r => { w with syncs := w.syncs.set i r.1, disk := r.2 }

def mediaStart (heat : HeatOverride.Node) (env : EnvFiles) (path : Str) (disk : ModelDisk) :
    MediaWorld :=
  ⟨start heat env, false, path, none, [], disk⟩

/-! ### What a step can be -/

theorem mediaStep_sync_eq_some {env : MediaEnv} {w w' : MediaWorld} {i : ℕ} {e : SyncEvent}
    (h : mediaStep env w (.sync i e) = some w') :
    ∃ t r, w.syncs[i]? = some t ∧ syncStep env w.disk t e = some r ∧
      w' = { w with syncs := w.syncs.set i r.1, disk := r.2 } := by
  rw [mediaStep] at h
  cases ht : w.syncs[i]? with
  | none =>
    rw [ht] at h
    cases h
  | some t =>
    rw [ht] at h
    obtain ⟨r, hr, hw⟩ := Option.map_eq_some_iff.mp h
    exact ⟨t, r, rfl, hr, hw.symm⟩

theorem launch_phase (path : Str) (specs : List Json) : (launch path specs).phase = .between := by
  rw [launch]
  split <;> rfl

/-- Only the step of a task comes to the disk; the others launch tasks, or end them all. -/
theorem mediaStep_cases {env : MediaEnv} {w w' : MediaWorld} {input : MediaInput}
    (h : mediaStep env w input = some w') :
    (w'.disk = w.disk ∧ ∀ t ∈ w'.syncs, t ∈ w.syncs ∨ t.phase = .between) ∨
    ∃ i e t r, input = .sync i e ∧ w.syncs[i]? = some t ∧ syncStep env w.disk t e = some r ∧
      w' = { w with syncs := w.syncs.set i r.1, disk := r.2 } := by
  cases input with
  | send =>
    rw [mediaStep] at h
    split_ifs at h
    cases h
    exact Or.inl ⟨rfl, fun t ht => Or.inl ht⟩
  | answer tick =>
    rw [mediaStep] at h
    split_ifs at h
    cases h
    refine Or.inl ⟨rfl, fun t ht => ?_⟩
    rcases List.mem_append.mp ht with hold | hnew
    · exact Or.inl hold
    · obtain ⟨specs, -, rfl⟩ := Option.mem_map.mp (Option.mem_toList.mp hnew)
      exact Or.inr (launch_phase w.path specs)
  | minerEnds =>
    cases h
    exact Or.inl ⟨rfl, fun t ht => Or.inl ht⟩
  | restart path =>
    obtain ⟨agent, -, rfl⟩ := Option.map_eq_some_iff.mp h
    exact Or.inl ⟨rfl, fun t ht => by cases ht⟩
  | sync i e =>
    obtain ⟨t, r, ht, hr, hw⟩ := mediaStep_sync_eq_some h
    exact Or.inr ⟨i, e, t, r, rfl, ht, hr, hw⟩

/-! ### A truthful acknowledgement -/

def AcksPresent (env : MediaEnv) (w : MediaWorld) : MediaInput → Prop
  | .send => w.agent.pendingMediaModelsApplied = true →
      ∀ specs, w.queue = some specs → Present env w.path w.disk specs
  | .answer _ | .minerEnds | .restart _ | .sync _ _ => True

/-- An exception leaves the handling of the response ahead of the media models. -/
def Aborted (a : Agent) (t : Tick) : Prop :=
  ∃ b, received t.post = some b ∧ (heatOverrideRaises a.heat b.heat t.heatIo = true ∨
    ∃ c, b.pendingConfig = .config c ∧ (applyPendingConfig a.env c t.envIo).2 = .raised)

/-- The acknowledgement is sent after the end of the downloads, each queue that a
handled response holds can be downloaded, and all downloads end well. -/
def SyncsFirst (env : MediaEnv) (w : MediaWorld) : MediaInput → Prop
  | .send => w.agent.pendingMediaModelsApplied = true → ∀ t ∈ w.syncs, t.finished
  | .answer t => ∀ specs, deliveredQueue t = some specs →
      if w.agent.pendingMediaModelsApplied then ¬ Aborted w.agent t ∧ Downloadable env w.path specs
      else Aborted w.agent t ∨ Downloadable env w.path specs
  | .minerEnds | .restart _ => True
  | .sync i e => ∀ t ∈ w.syncs[i]?, DownloadsEnd env w.disk t e

/-! ### The flag after a response -/

theorem pendingMediaModelsApplied_heartbeat (s : Settings) (a : Agent) (t : Tick) :
    (heartbeat s a t).agent.pendingMediaModelsApplied =
      (handleResponse s.setbackTempC a t).1.pendingMediaModelsApplied :=
  heartbeat_keeps Agent.pendingMediaModelsApplied (fun _ _ _ _ => rfl) s a t

theorem effects_heartbeat (s : Settings) (a : Agent) (t : Tick) :
    (heartbeat s a t).effects = (handleResponse s.setbackTempC a t).2 := rfl

theorem handleResponse_of_aborted (default : PyFloat) {a : Agent} {t : Tick} (h : Aborted a t) :
    (handleResponse default a t).1.pendingMediaModelsApplied = a.pendingMediaModelsApplied ∧
    (handleResponse default a t).2.mediaSync = none := by
  obtain ⟨b, hb, hraise⟩ := h
  rw [handleResponse, hb]
  dsimp only
  rw [handleBody]
  split_ifs with hheat
  · exact ⟨rfl, rfl⟩
  · rcases hraise with hr | ⟨c, hc, hr⟩
    · exact absurd hr hheat
    · rw [handlePendingConfig, hc]
      dsimp only
      rw [if_pos hr]
      exact ⟨rfl, rfl⟩

theorem handleResponse_of_not_aborted (default : PyFloat) {a : Agent} {t : Tick} {b : Body}
    (hb : received t.post = some b) (h : ¬ Aborted a t) :
    ∃ a' restart, a'.pendingMediaModelsApplied = a.pendingMediaModelsApplied ∧
      handleResponse default a t = handleMediaModels a' restart b.pendingMediaModels := by
  have hheat : ¬ heatOverrideRaises a.heat b.heat t.heatIo = true :=
    fun hr => h ⟨b, hb, Or.inl hr⟩
  rw [handleResponse, hb]
  dsimp only
  rw [handleBody, if_neg hheat, handlePendingConfig]
  cases hp : b.pendingConfig with
  | config c =>
    have hraise : ¬ (applyPendingConfig a.env c t.envIo).2 = .raised :=
      fun hr => h ⟨b, hb, Or.inr ⟨c, hp, hr⟩⟩
    dsimp only
    rw [if_neg hraise]
    refine ⟨_, _, ?_, rfl⟩
    rfl
  | falsy =>
    refine ⟨_, _, ?_, rfl⟩
    rfl
  | other =>
    refine ⟨_, _, ?_, rfl⟩
    rfl

theorem deliveredQueue_eq_some {t : Tick} {specs : List Json} (h : deliveredQueue t = some specs) :
    ∃ b, received t.post = some b ∧ b.pendingMediaModels = .queue specs := by
  rw [deliveredQueue] at h
  cases hb : received t.post with
  | none => rw [hb] at h; cases h
  | some b =>
    rw [hb] at h
    dsimp only at h
    cases hm : b.pendingMediaModels with
    | queue specs' => rw [hm] at h; cases h; exact ⟨b, rfl, hm⟩
    | falsy => rw [hm] at h; cases h
    | other => rw [hm] at h; cases h

theorem heartbeat_of_delivered (s : Settings) {a : Agent} {t : Tick} {specs : List Json}
    (hq : deliveredQueue t = some specs) (h : ¬ Aborted a t) :
    (heartbeat s a t).agent.pendingMediaModelsApplied = true ∧
    (heartbeat s a t).effects.mediaSync = some specs := by
  obtain ⟨b, hb, hm⟩ := deliveredQueue_eq_some hq
  obtain ⟨a', restart, -, heq⟩ := handleResponse_of_not_aborted s.setbackTempC hb h
  rw [pendingMediaModelsApplied_heartbeat, effects_heartbeat, heq, hm]
  exact ⟨rfl, rfl⟩

theorem heartbeat_of_aborted (s : Settings) {a : Agent} {t : Tick} (h : Aborted a t) :
    (heartbeat s a t).agent.pendingMediaModelsApplied = a.pendingMediaModelsApplied ∧
    (heartbeat s a t).effects.mediaSync = none := by
  rw [pendingMediaModelsApplied_heartbeat]
  exact handleResponse_of_aborted s.setbackTempC h

theorem heartbeat_of_no_queue (s : Settings) (a : Agent) {t : Tick} (hq : deliveredQueue t = none) :
    ((heartbeat s a t).agent.pendingMediaModelsApplied = true →
      a.pendingMediaModelsApplied = true) ∧
    (heartbeat s a t).effects.mediaSync = none := by
  by_cases hab : Aborted a t
  · obtain ⟨hflag, hsync⟩ := heartbeat_of_aborted s hab
    exact ⟨fun h => hflag ▸ h, hsync⟩
  rw [pendingMediaModelsApplied_heartbeat, effects_heartbeat]
  cases hb : received t.post with
  | none =>
    rw [handleResponse, hb]
    exact ⟨id, rfl⟩
  | some b =>
    obtain ⟨a', restart, hflag, heq⟩ := handleResponse_of_not_aborted s.setbackTempC hb hab
    rw [heq]
    cases hm : b.pendingMediaModels with
    | queue specs => rw [deliveredQueue, hb] at hq; dsimp only at hq; rw [hm] at hq; cases hq
    | falsy => exact ⟨fun h => (by cases h), rfl⟩
    | other => exact ⟨fun h => hflag ▸ h, rfl⟩

/-! ### The handshake along a run -/

def Settled (env : MediaEnv) (w : MediaWorld) : Prop :=
  (∀ t ∈ w.syncs, t.finished) ∧ (w.agent.pendingMediaModelsApplied = true →
    ∀ specs, w.queue = some specs → Present env w.path w.disk specs)

/-- The last task is at work, and the next heartbeat will carry the acknowledgement. -/
def Syncing (env : MediaEnv) (w : MediaWorld) : Prop :=
  w.agent.pendingMediaModelsApplied = true ∧ w.awaiting = false ∧ ∃ idle t specs,
    w.syncs = idle ++ [t] ∧ (∀ x ∈ idle, x.finished) ∧ w.queue = some specs ∧
    Underway env w.path w.disk specs t

theorem last_of_getElem? {α : Type*} {l : List α} {a b : α} {i : ℕ} (h : (l ++ [a])[i]? = some b)
    (hb : b ∉ l) : i = l.length ∧ b = a := by
  rcases lt_trichotomy i l.length with hi | rfl | hi
  · rw [List.getElem?_append_left hi] at h
    exact absurd (List.mem_of_getElem? h) hb
  · rw [List.getElem?_concat_length] at h
    exact ⟨rfl, (Option.some.inj h).symm⟩
  · rw [List.getElem?_eq_none (by simp; omega)] at h
    cases h

section Runs

variable {env : MediaEnv} {w w' : MediaWorld}

theorem Syncing.settled (h : Syncing env w) (hf : ∀ t ∈ w.syncs, t.finished) : Settled env w := by
  obtain ⟨hflag, hawait, idle, t, specs, hsyncs, hidle, hqueue, hunder⟩ := h
  refine ⟨hf, fun _ specs' hqueue' => ?_⟩
  cases hqueue.symm.trans hqueue'
  have hmem : t ∈ w.syncs := by
    rw [hsyncs]
    exact List.mem_append_right idle (List.mem_singleton_self t)
  exact hunder.present (hf t hmem)

theorem settled_of_send (h : Settled env w ∨ Syncing env w) (hg : SyncsFirst env w .send) :
    Settled env w := by
  rcases h with h | h
  · exact h
  · exact h.settled (hg h.1)

theorem acksPresent_of_guard {i : MediaInput} (h : Settled env w ∨ Syncing env w)
    (hg : SyncsFirst env w i) : AcksPresent env w i := by
  cases i with
  | send => exact (settled_of_send h hg).2
  | _ => trivial

theorem settled_of_no_sync {t : Tick} (h : Settled env w)
    (hsync : (heartbeat env.settings w.agent t).effects.mediaSync = none)
    (hflag : (heartbeat env.settings w.agent t).agent.pendingMediaModelsApplied = true →
      w.agent.pendingMediaModelsApplied = true ∧ deliveredQueue t = none) :
    Settled env (answered env w t) := by
  have hsyncs : (answered env w t).syncs = w.syncs := by
    rw [answered, hsync]
    exact List.append_nil _
  refine ⟨?_, fun hf specs hqueue => ?_⟩
  · rw [hsyncs]
    exact h.1
  · obtain ⟨hold, hnone⟩ := hflag hf
    have hq : (answered env w t).queue = w.queue := by
      rw [answered, hnone]
      rfl
    exact h.2 hold specs (hq ▸ hqueue)

theorem inv_answered {t : Tick} (h : Settled env w) (hg : SyncsFirst env w (.answer t)) :
    Settled env (answered env w t) ∨ Syncing env (answered env w t) := by
  cases hq : deliveredQueue t with
  | none =>
    obtain ⟨hflag, hsync⟩ := heartbeat_of_no_queue env.settings w.agent hq
    exact Or.inl (settled_of_no_sync h hsync fun hf => ⟨hflag hf, hq⟩)
  | some specs =>
    have hg := hg specs hq
    by_cases hab : Aborted w.agent t
    · obtain ⟨hflag, hsync⟩ := heartbeat_of_aborted env.settings hab
      refine Or.inl (settled_of_no_sync h hsync fun hf => ?_)
      rw [hflag] at hf
      rw [if_pos hf] at hg
      exact absurd hab hg.1
    · have hd : Downloadable env w.path specs := by
        split_ifs at hg with hf
        · exact hg.2
        · exact hg.resolve_left hab
      obtain ⟨hflag, hsync⟩ := heartbeat_of_delivered env.settings hq hab
      have hqueue : (answered env w t).queue = some specs := by
        rw [answered, hq]
        rfl
      have hsyncs : (answered env w t).syncs = w.syncs ++ [launch w.path specs] := by
        rw [answered, hsync]
        rfl
      by_cases hroot : modelsRoot w.path = none
      · refine Or.inl ⟨?_, fun _ specs' hqueue' => ?_⟩
        · rw [hsyncs]
          intro x hx
          rcases List.mem_append.mp hx with hx | hx
          · exact h.1 x hx
          · rw [List.mem_singleton.mp hx, launch, hroot]
            exact ⟨rfl, rfl⟩
        · cases hqueue.symm.trans hqueue'
          rw [Downloadable, hroot] at hd
          change Present env w.path w.disk specs
          rw [Present, hroot]
          exact hd
      · exact Or.inr ⟨hflag, rfl, w.syncs, launch w.path specs, specs, hsyncs, h.1, hqueue,
          underway_launch hd hroot⟩

theorem inv_sync {i : ℕ} {e : SyncEvent} (h : Settled env w ∨ Syncing env w)
    (hg : SyncsFirst env w (.sync i e)) (hstep : mediaStep env w (.sync i e) = some w') :
    Settled env w' ∨ Syncing env w' := by
  obtain ⟨t, r, ht, hr, rfl⟩ := mediaStep_sync_eq_some hstep
  have hwork : ¬ t.finished := fun hf => by
    cases (syncStep_of_finished hf e).symm.trans hr
  rcases h with h | ⟨hflag, hawait, idle, t', specs, hsyncs, hidle, hqueue, hunder⟩
  · exact absurd (h.1 t (List.mem_of_getElem? ht)) hwork
  obtain ⟨hi, rfl⟩ := last_of_getElem? (hsyncs ▸ ht) fun hin => hwork (hidle t hin)
  refine Or.inr ⟨hflag, hawait, idle, r.1, specs, ?_, hidle, hqueue, ?_⟩
  · change w.syncs.set i r.1 = idle ++ [r.1]
    rw [hsyncs, hi, List.set_append_right _ _ le_rfl, Nat.sub_self]
    rfl
  · exact hunder.step (hg t ht) hr

theorem inv_step {i : MediaInput} (h : Settled env w ∨ Syncing env w) (hg : SyncsFirst env w i)
    (hstep : mediaStep env w i = some w') : Settled env w' ∨ Syncing env w' := by
  cases i with
  | send =>
    rw [mediaStep] at hstep
    split_ifs at hstep
    cases hstep
    have hs : Settled env w := settled_of_send h hg
    exact Or.inl ⟨hs.1, hs.2⟩
  | answer t =>
    rw [mediaStep] at hstep
    split_ifs at hstep with hawait
    cases hstep
    rcases h with h | ⟨-, hno, -⟩
    · exact inv_answered h hg
    · rw [hawait] at hno
      cases hno
  | minerEnds =>
    cases hstep
    exact h
  | restart path =>
    obtain ⟨agent, hagent, rfl⟩ := Option.map_eq_some_iff.mp hstep
    obtain ⟨heat, -, rfl⟩ := Option.map_eq_some_iff.mp hagent
    exact Or.inl ⟨fun t ht => (by cases ht), fun hf => (by cases hf)⟩
  | sync i e => exact inv_sync h hg hstep

/-- In every run in which the acknowledgement waits for the downloads and these end
well, each heartbeat that carries it is sent with the files of the last queue there. -/
theorem acks_present (heat : HeatOverride.Node) (files : EnvFiles) (path : Str) (disk : ModelDisk)
    (inputs : List MediaInput)
    (h : Run.Along (mediaStep env) (SyncsFirst env) (mediaStart heat files path disk) inputs) :
    Run.Along (mediaStep env) (AcksPresent env) (mediaStart heat files path disk) inputs := by
  have h0 : Settled env (mediaStart heat files path disk) :=
    ⟨fun _ ht => (by cases ht), fun hf => (by cases hf)⟩
  exact Run.along_of_invariant (fun w i w' hi hg hs => inv_step hi hg hs)
    (fun w i hi hg => acksPresent_of_guard hi hg) (Or.inl h0) h

end Runs

def mediaEnv : MediaEnv :=
  ⟨shipped, fun _ => [], PurePath.lexical, fun _ bytes => bytes = [7], 8192⟩

def modelSpec : Json :=
  .obj [("url".toList, .str "http://u".toList), ("rel_path".toList, .str "m.bin".toList)]

def queueTick : Tick :=
  tickAt (.status 200 (some ⟨⟨false, none⟩, .falsy, .queue [modelSpec]⟩)) 0

def modelsPath : Str := "/models"

theorem wanted_modelSpec :
    wanted mediaEnv modelsPath modelSpec = some ⟨"http://u", "/models/m.bin"⟩ := by
  decide +kernel

theorem modelsRoot_modelsPath : modelsRoot modelsPath = some modelsPath := by decide +kernel

theorem downloadable_modelSpec : Downloadable mediaEnv modelsPath [modelSpec] := by
  rw [Downloadable, modelsRoot_modelsPath]
  intro spec hspec spec' hspec' file file' hw hw'
  rw [List.mem_singleton.mp hspec, wanted_modelSpec] at hw
  rw [List.mem_singleton.mp hspec', wanted_modelSpec] at hw'
  cases hw
  cases hw'
  exact ⟨by decide, fun _ => rfl⟩

theorem acks_present_downloaded :
    Run.Along (mediaStep mediaEnv) (AcksPresent mediaEnv)
      (mediaStart plainStart ⟨none, none⟩ modelsPath Disk.empty)
      [.send, .answer queueTick, .sync 0 (.next .absent), .sync 0 .opened, .sync 0 (.ended [7]),
        .sync 0 .replaced, .send] := by
  refine acks_present plainStart ⟨none, none⟩ modelsPath Disk.empty _ ?_
  refine ⟨fun h => (by cases h), fun _ h => ?_⟩
  cases h
  refine ⟨?_, fun _ h => ?_⟩
  · intro specs hq
    cases hq
    exact Or.inr downloadable_modelSpec
  cases h
  refine ⟨?_, fun _ h => ?_⟩
  · intro t ht spec hspec file hw hskip
    cases ht
    cases hspec
    cases wanted_modelSpec.symm.trans hw
    cases hskip
  cases h
  refine ⟨fun t ht => trivial, fun _ h => ?_⟩
  cases h
  refine ⟨fun t ht => trivial, fun _ h => ?_⟩
  cases h
  refine ⟨fun t ht => trivial, fun _ h => ?_⟩
  cases h
  refine ⟨fun _ t ht => ?_, fun _ _ => trivial⟩
  cases List.mem_singleton.mp ht
  exact ⟨rfl, rfl⟩

/-- The download has not even begun when the next heartbeat acknowledges it. -/
theorem not_acks_present_early :
    ¬ Run.Along (mediaStep mediaEnv) (AcksPresent mediaEnv)
      (mediaStart plainStart ⟨none, none⟩ modelsPath Disk.empty)
      ([.send, .answer queueTick] ++ .send :: []) := by
  intro h
  have hlast := h.at rfl
  have hpresent : Present mediaEnv modelsPath Disk.empty [modelSpec] := hlast rfl [modelSpec] rfl
  rw [Present, modelsRoot_modelsPath] at hpresent
  obtain ⟨bytes, hread, -⟩ :=
    hpresent modelSpec (List.mem_singleton_self _) _ wanted_modelSpec
  cases hread

end HadcdAgent.Heartbeat
