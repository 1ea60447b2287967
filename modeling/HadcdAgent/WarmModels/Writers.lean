import HadcdAgent.AgentState.Store
import HadcdAgent.Rental.Retry
import HadcdAgent.WarmModels.Listing

/-!
# The writers of the warm-model list

`AgentState.cached_models` under the scan at startup, the hourly one (`agent/agent.py`)
and `record_cached_model`, which a started `api_endpoint` session calls
(`agent/rental_session_handler.py`).
-/

namespace HadcdAgent.WarmModels

open Lib Lib.DockerRun Rental AgentState

variable {π : Type} [DecidableEq π]

/-! ### The node -/

structure Node (π : Type) where
  state : AgentState
  disk : Disk π UInt8
  volume : List ModelFile

/-- The temporary file of a `save`, and how many of its steps are carried out. -/
structure SaveIo (π : Type) where
  tmp : π
  done : ℕ

/-- A session that `_start_session` is called for, and what it meets. -/
structure Start where
  sessionId : Str
  draw : Draw
  io : StartIo
  host : StartState

/-- `save` stands for the enrolment and the heat override, which persist their own fields. -/
inductive Event (π : Type) where
  | startup (io : ScanIo)
  | refresh (io : ScanIo)
  | start (start : Start) (save : SaveIo π)
  | volume (files : List ModelFile)
  | save (nodeId nodeToken : Option Str) (savedSetpointC : Option PyFloat) (save : SaveIo π)

/-- What stays while the agent is restarted; `manifestOf` is where Ollama keeps the
manifest of a model that is asked for by its name. -/
structure Setup (π : Type) where
  json : JsonText
  path : π
  handler : Handler
  manifestOf : Str → List Str

/-! ### The source -/

/-- `if _scanned: self.state.cached_models = _scanned` -/
def keepScanned (scanned : List Str) (s : AgentState) : AgentState :=
  if scanned = [] then s else { s with cachedModels := scanned }

/-- The model that the session reports as cached once its container runs. -/
def Start.reported (h : Handler) (start : Start) : Option Str :=
  if (startSession h start.sessionId start.draw start.io start.host).1 ∧
      start.draw.stype ≠ "ssh" ∧ start.draw.stype ≠ "media" then
    some (modelName start.draw.model)
  else none

def Node.record (setup : Setup π) (n : Node π) (model : Str) (save : SaveIo π) : Node π :=
  let r := recordCachedModel setup.json setup.path save.tmp n.state model save.done n.disk
  { n with state := r.1, disk := r.2.1 }

/-- `none` where `load` raises, which ends the agent. -/
def step (setup : Setup π) (n : Node π) : Event π → Option (Node π)
  | .startup io =>
    match new.load (found setup.json setup.path n.disk) with
    | .ok (_, s) => some { n with state := keepScanned (listCachedModels io n.volume) s }
    | .error _ => none
  | .refresh io => some { n with state := keepScanned (listCachedModels io n.volume) n.state }
  | .start start save =>
    match start.reported setup.handler with
    | some model => some (n.record setup model save)
    | none => some n
  | .volume files => some { n with volume := files }
  | .save nodeId nodeToken savedSetpointC save =>
    let s := { n.state with
      nodeId := nodeId, nodeToken := nodeToken, savedSetpointC := savedSetpointC }
    some { n with
      state := s, disk := (saveTo setup.json setup.path save.tmp s save.done n.disk).1 }

/-! ### The warm-model list -/

/-- The list is the set of the volume's models. -/
structure Lists (models : List Str) (volume : List ModelFile) : Prop where
  nodup : models.Nodup
  mem : ∀ model, model ∈ models ↔ Holds volume model

def HasManifest (setup : Setup π) (volume : List ModelFile) (model : Str) : Prop :=
  ∃ f ∈ volume, f.path = setup.manifestOf model

/-- A scan that lists the volume leaves the list of its models, and what a session reports
has its manifest there. -/
def Matches (setup : Setup π) (n : Node π) (e : Event π) (n' : Node π) : Prop :=
  match e with
  | .startup io | .refresh io => io.lists = true → Lists n'.state.cachedModels n.volume
  | .start start _ => ∀ model, start.reported setup.handler = some model →
      HasManifest setup n.volume model
  | .volume _ | .save .. => True

/-- Docker starts the session's container. -/
structure Start.Runs (h : Handler) (start : Start) : Prop where
  launches : Launches h start.draw start.io
  free : ¬ NameTaken start.sessionId start.host
  creates : start.io.run.Creates
  starts : start.io.run.start = none

/-- The volume that is listed holds a model, or the list was empty before; the model of an
`api_endpoint` session whose container runs has been pulled. -/
def Pulled (setup : Setup π) (n : Node π) : Event π → Prop
  | .startup io => io.lists = true → (∃ model, Holds n.volume model) ∨
      ∀ b s, new.load (found setup.json setup.path n.disk) = .ok (b, s) → s.cachedModels = []
  | .refresh io => io.lists = true →
      (∃ model, Holds n.volume model) ∨ n.state.cachedModels = []
  | .start start _ => start.Runs setup.handler →
      start.draw.stype ≠ "ssh" → start.draw.stype ≠ "media" →
        HasManifest setup n.volume (modelName start.draw.model)
  | .volume _ | .save .. => True

section

variable {setup : Setup π} {n : Node π} {io : ScanIo} {s : AgentState} {start : Start}
  {volume : List ModelFile}

theorem lists_of_no_model {models : List Str} (h : ∀ model, ¬ Holds volume model) :
    Lists models volume ↔ models = [] := by
  constructor
  · intro hlists
    exact List.eq_nil_iff_forall_not_mem.mpr fun model hm => h model ((hlists.mem model).mp hm)
  · intro hnil
    rw [hnil]
    exact ⟨List.nodup_nil, fun model => iff_of_false List.not_mem_nil (h model)⟩

theorem lists_keepScanned_iff (h : io.lists = true) :
    Lists (keepScanned (listCachedModels io volume) s).cachedModels volume ↔
      (∃ model, Holds volume model) ∨ s.cachedModels = [] := by
  by_cases hmodel : ∃ model, Holds volume model
  · obtain ⟨model, hholds⟩ := hmodel
    have hlisted : listCachedModels io volume ≠ [] :=
      List.ne_nil_of_mem ((mem_listCachedModels h).mpr hholds)
    rw [keepScanned, if_neg hlisted]
    exact iff_of_true ⟨nodup_listCachedModels io volume, fun _ => mem_listCachedModels h⟩
      (Or.inl ⟨model, hholds⟩)
  · have hnone : ∀ model, ¬ Holds volume model := not_exists.mp hmodel
    rw [keepScanned, if_pos (listCachedModels_eq_nil.mpr (Or.inr hnone)), lists_of_no_model hnone,
      or_iff_right hmodel]

theorem registered_iff (h : Handler) (start : Start) :
    (startSession h start.sessionId start.draw start.io start.host).1 = true ↔ start.Runs h := by
  constructor
  · intro hregistered
    have hlaunches : Launches h start.draw start.io := by
      by_contra hl
      obtain ⟨t, heq, -⟩ := @startSession_of_not_launches h start.sessionId start.draw start.io
        start.host hl
      rw [heq] at hregistered
      cases hregistered
    have haccepted : ¬ (NameTaken start.sessionId start.host ∨ ¬ start.io.run.Creates) := by
      intro hr
      rw [startSession_of_refused hlaunches hr] at hregistered
      cases hregistered
    rw [not_or, not_not] at haccepted
    refine ⟨hlaunches, haccepted.1, haccepted.2, ?_⟩
    cases hstart : start.io.run.start with
    | none => rfl
    | some e =>
      have hfails := (startSession_of_startFails hlaunches haccepted.1 haccepted.2 hstart).1
      rw [hfails] at hregistered
      cases hregistered
  · intro hruns
    exact (startSession_of_starts hruns.launches hruns.free hruns.creates hruns.starts).1

/-- The volume is not asked. -/
theorem reported_eq_some {h : Handler} {model : Str} : start.reported h = some model ↔
    start.Runs h ∧ start.draw.stype ≠ "ssh" ∧ start.draw.stype ≠ "media" ∧
      model = modelName start.draw.model := by
  rw [Start.reported, ← registered_iff h start]
  constructor
  · intro hreported
    split_ifs at hreported with hruns
    exact ⟨hruns.1, hruns.2.1, hruns.2.2, (Option.some.inj hreported).symm⟩
  · rintro ⟨hruns, hssh, hmedia, rfl⟩
    exact if_pos ⟨hruns, hssh, hmedia⟩

/-! ### One event -/

theorem matches_startup_iff : (∀ n', step setup n (.startup io) = some n' →
    Matches setup n (.startup io) n') ↔ Pulled setup n (.startup io) := by
  cases hload : new.load (found setup.json setup.path n.disk) with
  | error e =>
    have hstep : step setup n (.startup io) = none := by rw [step, hload]
    refine iff_of_true (fun n' hn' => ?_) fun _ => Or.inr fun b s hs => ?_
    · rw [hstep] at hn'
      cases hn'
    · rw [hload] at hs
      cases hs
  | ok r =>
    obtain ⟨b, s⟩ := r
    have hstep : step setup n (.startup io) =
        some { n with state := keepScanned (listCachedModels io n.volume) s } := by
      rw [step, hload]
    have hloaded : (∀ b' s', new.load (found setup.json setup.path n.disk) = .ok (b', s') →
        s'.cachedModels = []) ↔ s.cachedModels = [] := by
      rw [hload]
      exact ⟨fun h => h b s rfl, fun h b' s' hs => by cases hs; exact h⟩
    simp only [hstep, Option.some.injEq, forall_eq', Matches, Pulled, hloaded]
    exact forall_congr' lists_keepScanned_iff

theorem matches_refresh_iff : (∀ n', step setup n (.refresh io) = some n' →
    Matches setup n (.refresh io) n') ↔ Pulled setup n (.refresh io) := by
  simp only [step, Option.some.injEq, forall_eq', Matches, Pulled]
  exact forall_congr' lists_keepScanned_iff

theorem matches_start_iff {save : SaveIo π} : (∀ n', step setup n (.start start save) = some n' →
    Matches setup n (.start start save) n') ↔ Pulled setup n (.start start save) := by
  have hstep : ∃ n', step setup n (.start start save) = some n' := by
    rw [step]
    cases start.reported setup.handler with
    | none => exact ⟨n, rfl⟩
    | some model => exact ⟨n.record setup model save, rfl⟩
  obtain ⟨n', hn'⟩ := hstep
  simp only [hn', Option.some.injEq, forall_eq', Matches, Pulled, reported_eq_some]
  constructor
  · intro h hruns hssh hmedia
    exact h _ ⟨hruns, hssh, hmedia, rfl⟩
  · rintro h model ⟨hruns, hssh, hmedia, rfl⟩
    exact h hruns hssh hmedia

end

/-- Along a run the list matches the volume exactly when every scan that lists it finds a
model, or nothing to forget, and every reported model has been pulled. -/
theorem alongSteps_matches_iff_pulled (setup : Setup π) (n : Node π) (events : List (Event π)) :
    Run.AlongSteps (step setup) (Matches setup) n events ↔
      Run.Along (step setup) (Pulled setup) n events := by
  refine Run.along_iff fun n e => ?_
  cases e with
  | startup io => exact matches_startup_iff
  | refresh io => exact matches_refresh_iff
  | start start save => exact matches_start_iff
  | volume files => exact iff_of_true (fun _ _ => trivial) trivial
  | save nodeId nodeToken savedSetpointC save => exact iff_of_true (fun _ _ => trivial) trivial

def llama3 : ModelFile :=
  ⟨["registry.ollama.ai", "library", "llama3", "latest"], by decide⟩

def ollama : Setup Str :=
  ⟨nodeJson, "state.json", plainHandler,
    fun name => ["registry.ollama.ai", "library", name, "latest"]⟩

/-- Docker runs the container. -/
def apiEndpoint : Start :=
  ⟨"3f2a9c71", ⟨"api_endpoint".toList, some "llama3".toList, 52000, []⟩,
    ⟨true, none, some [sessionNetwork], true, some [], ⟨none, none, none, none⟩, "5d1f0c9ab2e4",
      none, none, true⟩, emptyHost⟩

/-- The only model is removed before the hourly scan; a session's model was never pulled. -/
theorem not_matches_llama3 :
    ¬ Run.AlongSteps (step ollama) (Matches ollama) ⟨new, .empty, [llama3]⟩
      [.startup ⟨true, true, true⟩, .volume [], .refresh ⟨true, true, true⟩] ∧
    ¬ Run.AlongSteps (step ollama) (Matches ollama) ⟨new, .empty, []⟩
      [.startup ⟨true, true, true⟩, .start apiEndpoint ⟨".state-a.tmp", 1000⟩] := by
  constructor
  · intro h
    have hscan : listCachedModels ⟨true, true, true⟩ [llama3] = ["llama3:latest".toList] := by
      decide +kernel
    have hstartup : step ollama ⟨new, .empty, [llama3]⟩ (.startup ⟨true, true, true⟩) =
        some ⟨cache new "llama3:latest", .empty, [llama3]⟩ := by
      change some (Node.mk (keepScanned (listCachedModels ⟨true, true, true⟩ [llama3]) new) _ _) = _
      rw [hscan]
      rfl
    have hrefresh := ((h.2 _ hstartup).2 _ rfl).1 _ rfl rfl
    have hstale : "llama3:latest".toList ∈ (cache new "llama3:latest").cachedModels := by decide
    obtain ⟨f, hf, -⟩ := (hrefresh.mem _).mp hstale
    cases hf
  · intro h
    have hreported : apiEndpoint.reported ollama.handler = some "llama3".toList := by
      decide +kernel
    have hstart : step ollama ⟨new, .empty, []⟩ (.start apiEndpoint ⟨".state-a.tmp", 1000⟩) =
        some (Node.record ollama ⟨new, .empty, []⟩ "llama3" ⟨".state-a.tmp", 1000⟩) := by
      rw [step, hreported]
    obtain ⟨f, hf, -⟩ := (h.2 _ rfl).1 _ hstart _ hreported
    cases hf

end HadcdAgent.WarmModels
