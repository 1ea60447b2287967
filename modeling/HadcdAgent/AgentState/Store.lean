import HadcdAgent.AgentState
import HadcdAgent.Lib.Faults

/-!
# The state file on disk

`AgentState.save` and `AgentState.record_cached_model` (`agent/state.py`) with the steps
of the file system that may fail: the temporary file is made, written and put in the
place of the state file.
-/

namespace HadcdAgent.AgentState

open Lib Lib.PyStr

/-! ### The source -/

/-- `json.dumps`, and `json.loads` of the text of a file; a line break is whitespace to it,
so the newlines that text mode translates make no difference. -/
structure JsonText where
  dumps : Json → Str
  loads : Str → Loads

def ofLoads : Loads → StateFile
  | .value data => .json data
  | .notUtf8 => .notUtf8
  | .notJson => .notJson
  | .tooManyDigits => .tooManyDigits
  | .tooDeep => .tooDeep

def ofBytes (loads : Str → Loads) (bytes : List UInt8) : StateFile :=
  match decodeUtf8 bytes with
  | none => .notUtf8
  | some text => ofLoads (loads text)

inductive SaveError where
  | runtimeError
  | osError
  deriving DecidableEq

variable {π : Type} [DecidableEq π]

/-- The state file at `path`. -/
def found (json : JsonText) (path : π) (d : Disk π UInt8) : StateFile :=
  match d.read path with
  | none => .missing
  | some bytes => ofBytes json.loads bytes

/-- `mkstemp`, `json.dump` byte by byte, `os.replace`. -/
def saveSteps (json : JsonText) (path tmp : π) (nodeId nodeToken : Str) (s : AgentState) :
    List (FileStep π UInt8) :=
  FileStep.writeText tmp (encodeUtf8 (json.dumps (.obj (payload nodeId nodeToken s)))) ++
    [.rename tmp path]

/-- `save` where the file system carries out `done` of its steps and refuses the next. -/
def saveTo (json : JsonText) (path tmp : π) (s : AgentState) (done : ℕ) (d : Disk π UInt8) :
    Disk π UInt8 × Except SaveError Unit :=
  match s.nodeId, s.nodeToken with
  | some nodeId, some nodeToken =>
    let steps := saveSteps json path tmp nodeId nodeToken s
    if steps.length ≤ done then (FileStep.run d steps, .ok ())
    else if done = 0 then (d, .error .osError)
    else ((FileStep.run d (steps.take done)).unlink tmp, .error .osError)
  | _, _ => (d, .error .runtimeError)

def cache (s : AgentState) (model : Str) : AgentState :=
  { s with cachedModels := s.cachedModels ++ [model] }

def isNew (s : AgentState) (model : Str) : Bool := model ≠ [] && model ∉ s.cachedModels

/-- The state, the disk and how the call ends. -/
def recordCachedModel (json : JsonText) (path tmp : π) (s : AgentState) (model : Str) (done : ℕ)
    (d : Disk π UInt8) : AgentState × Disk π UInt8 × Except SaveError Unit :=
  if isNew s model then (cache s model, saveTo json path tmp (cache s model) done d)
  else (s, d, .ok ())

/-! ### What persistence asks for -/

/-- A payload's text is read back as the payload. -/
def ReadsBack (json : JsonText) (s : AgentState) : Prop :=
  ∀ nodeId nodeToken, s.nodeId = some nodeId → s.nodeToken = some nodeToken →
    json.loads (json.dumps (.obj (payload nodeId nodeToken s))) =
      .value (.obj (payload nodeId nodeToken s))

/-- The name that `mkstemp` finds. -/
structure TempName (d : Disk π UInt8) (path : π) where
  name : π
  fresh : d.read name = none
  apart : path ≠ name

/-- The file is loaded as the state. -/
def InStep (json : JsonText) (path : π) (s : AgentState) (d : Disk π UInt8) : Prop :=
  new.load (found json path d) = .ok (true, s)

/-- A save that completes is loaded back whole. -/
def RoundTrips (json : JsonText) (path tmp : π) (s : AgentState) (d : Disk π UInt8) : Prop :=
  ∀ done d', saveTo json path tmp s done d = (d', .ok ()) → InStep json path s d'

/-- A save that raises leaves the state file as it was and no temporary one. -/
def Atomic (json : JsonText) (path tmp : π) (s : AgentState) (d : Disk π UInt8) : Prop :=
  ∀ done d' e, saveTo json path tmp s done d = (d', .error e) →
    d'.read path = d.read path ∧ d'.read tmp = none

structure Recorded (json : JsonText) (path tmp : π) (s : AgentState) (model : Str) (done : ℕ)
    (d : Disk π UInt8) : Prop where
  nodup : s.cachedModels.Nodup →
    (recordCachedModel json path tmp s model done d).1.cachedModels.Nodup
  inStep : InStep json path (recordCachedModel json path tmp s model done d).1
    (recordCachedModel json path tmp s model done d).2.1

/-- The node is enrolled and the file system carries out every step. -/
def Carried (json : JsonText) (path tmp : π) (s : AgentState) (done : ℕ) : Prop :=
  ∃ nodeId nodeToken, s.nodeId = some nodeId ∧ s.nodeToken = some nodeToken ∧
    (saveSteps json path tmp nodeId nodeToken s).length ≤ done

/-- A new model's save is carried out, unless the file lists the model already; for any
other model the file was right before. -/
def Persisted (json : JsonText) (path tmp : π) (s : AgentState) (model : Str) (done : ℕ)
    (d : Disk π UInt8) : Prop :=
  if isNew s model then
    Carried json path tmp (cache s model) done ∨ InStep json path (cache s model) d
  else InStep json path s d

/-! ### One save -/

section

variable {json : JsonText} {path tmp : π} {s : AgentState} {done : ℕ} {d d' : Disk π UInt8}

theorem saveTo_eq_ok (h : saveTo json path tmp s done d = (d', .ok ())) :
    ∃ nodeId nodeToken, s.nodeId = some nodeId ∧ s.nodeToken = some nodeToken ∧
      (saveSteps json path tmp nodeId nodeToken s).length ≤ done ∧
      d' = FileStep.run d (saveSteps json path tmp nodeId nodeToken s) := by
  obtain ⟨nodeId, nodeToken, saved, models⟩ := s
  cases nodeId with
  | none => cases h
  | some nodeId =>
    cases nodeToken with
    | none => cases h
    | some nodeToken =>
      dsimp only [saveTo] at h
      split_ifs at h with hall
      · cases h
        exact ⟨nodeId, nodeToken, rfl, rfl, hall, rfl⟩
      · cases h
      · cases h

theorem saveTo_of_carried (h : Carried json path tmp s done) :
    ∃ d', saveTo json path tmp s done d = (d', .ok ()) := by
  obtain ⟨nodeId, nodeToken, hid, htoken, hall⟩ := h
  refine ⟨FileStep.run d (saveSteps json path tmp nodeId nodeToken s), ?_⟩
  rw [saveTo, hid, htoken]
  dsimp only
  rw [if_pos hall]

theorem saveTo_eq_error {e : SaveError} (h : saveTo json path tmp s done d = (d', .error e)) :
    d' = d ∨ ∃ nodeId nodeToken, done < (saveSteps json path tmp nodeId nodeToken s).length ∧
      d' = (FileStep.run d ((saveSteps json path tmp nodeId nodeToken s).take done)).unlink tmp := by
  obtain ⟨nodeId, nodeToken, saved, models⟩ := s
  cases nodeId with
  | none =>
    cases h
    exact Or.inl rfl
  | some nodeId =>
    cases nodeToken with
    | none =>
      cases h
      exact Or.inl rfl
    | some nodeToken =>
      dsimp only [saveTo] at h
      split_ifs at h with hall hnone
      · cases h
      · cases h
        exact Or.inl rfl
      · cases h
        exact Or.inr ⟨nodeId, nodeToken, Nat.lt_of_not_le hall, rfl⟩

theorem read_saveSteps (nodeId nodeToken : Str) :
    (FileStep.run d (saveSteps json path tmp nodeId nodeToken s)).read path =
      some (encodeUtf8 (json.dumps (.obj (payload nodeId nodeToken s)))) := by
  rw [saveSteps, FileStep.run_append]
  change (Disk.rename _ tmp path).read path = _
  rw [Disk.read_rename_target, FileStep.read_writeText]

theorem roundTrips (hjson : ReadsBack json s) : RoundTrips json path tmp s d := by
  intro done d' h
  obtain ⟨nodeId, nodeToken, hid, htoken, -, rfl⟩ := saveTo_eq_ok h
  have hfound : found json path (FileStep.run d (saveSteps json path tmp nodeId nodeToken s)) =
      .json (.obj (payload nodeId nodeToken s)) := by
    rw [found, read_saveSteps]
    dsimp only
    rw [ofBytes, decodeUtf8_encodeUtf8]
    dsimp only
    rw [hjson nodeId nodeToken hid htoken]
    rfl
  rw [InStep, hfound]
  exact load_save (by rw [save, hid, htoken]; rfl)

theorem atomic (t : TempName d path) : Atomic json path t.name s d := by
  intro done d' e h
  rcases saveTo_eq_error h with rfl | ⟨nodeId, nodeToken, hdone, rfl⟩
  · exact ⟨rfl, t.fresh⟩
  · refine ⟨?_, Disk.read_unlink_self⟩
    rw [saveSteps, List.length_append, List.length_singleton] at hdone
    rw [Disk.read_unlink_of_ne t.apart, saveSteps, List.take_append_of_le_length (by omega)]
    apply FileStep.read_run_of_not_touches
    intro step hstep
    exact FileStep.not_touches_writeText t.apart _ step (List.mem_of_mem_take hstep)

omit [DecidableEq π] in
theorem inStep_congr (h : d'.read path = d.read path) (s : AgentState) :
    InStep json path s d' ↔ InStep json path s d := by
  rw [InStep, InStep, found, found, h]

/-! ### One record -/

theorem nodup_cache {model : Str} (h : s.cachedModels.Nodup) (hmodel : isNew s model = true) :
    (cache s model).cachedModels.Nodup := by
  have hnot : model ∉ s.cachedModels := by
    rw [isNew, Bool.and_eq_true] at hmodel
    exact of_decide_eq_true hmodel.2
  refine List.nodup_append.mpr ⟨h, List.nodup_singleton model, ?_⟩
  intro a ha b hb heq
  rw [List.mem_singleton] at hb
  exact hnot (hb ▸ heq ▸ ha)

theorem recorded_iff_persisted {model : Str} (t : TempName d path)
    (hjson : ReadsBack json (cache s model)) :
    Recorded json path t.name s model done d ↔ Persisted json path t.name s model done d := by
  rw [Persisted]
  split_ifs with hnew
  · have hrecord : recordCachedModel json path t.name s model done d =
        (cache s model, saveTo json path t.name (cache s model) done d) := by
      rw [recordCachedModel, if_pos hnew]
    obtain ⟨⟨d', r⟩, hsave⟩ : ∃ r, saveTo json path t.name (cache s model) done d = r := ⟨_, rfl⟩
    have hstep : InStep json path (cache s model) d' ↔
        Carried json path t.name (cache s model) done ∨ InStep json path (cache s model) d := by
      cases r with
      | ok u =>
        obtain ⟨nodeId, nodeToken, hid, htoken, hall, -⟩ := saveTo_eq_ok hsave
        exact iff_of_true (roundTrips hjson done d' hsave)
          (Or.inl ⟨nodeId, nodeToken, hid, htoken, hall⟩)
      | error e =>
        have hnot : ¬ Carried json path t.name (cache s model) done := by
          intro hcarried
          obtain ⟨d'', hok⟩ := saveTo_of_carried (d := d) hcarried
          rw [hok] at hsave
          cases hsave
        rw [inStep_congr (atomic t done d' e hsave).1]
        exact ⟨Or.inr, fun h => h.resolve_left hnot⟩
    rw [← hstep]
    constructor
    · intro h
      have hin := h.inStep
      rw [hrecord, hsave] at hin
      exact hin
    · intro h
      refine ⟨fun hnodup => ?_, ?_⟩
      · rw [hrecord]
        exact nodup_cache hnodup hnew
      · rw [hrecord, hsave]
        exact h
  · have hrecord : recordCachedModel json path t.name s model done d = (s, d, .ok ()) := by
      rw [recordCachedModel, if_neg hnew]
    constructor
    · intro h
      have hin := h.inStep
      rw [hrecord] at hin
      exact hin
    · intro h
      refine ⟨fun hnodup => ?_, ?_⟩
      · rw [hrecord]
        exact hnodup
      · rw [hrecord]
        exact h

end

/-- Saves round-trip and are atomic; a recorded model is in the file as in memory exactly
when it is persisted. -/
theorem persistence_iff {json : JsonText} {path : π} {d : Disk π UInt8} (t : TempName d path)
    (s : AgentState) (model : Str) (done : ℕ) (hsave : ReadsBack json s)
    (hrecord : ReadsBack json (cache s model)) :
    RoundTrips json path t.name s d ∧ Atomic json path t.name s d ∧
      Recorded json path t.name s model done d ↔ Persisted json path t.name s model done d := by
  rw [and_iff_right (roundTrips hsave), and_iff_right (atomic t)]
  exact recorded_iff_persisted t hrecord

def savedText : Str := "\x7b\"node_id\": \"n\", \"node_token\": \"t\"\x7d"

def cachedText : Str :=
  "\x7b\"node_id\": \"n\", \"node_token\": \"t\", \"cached_models\": [\"m\"]\x7d"

def node : AgentState := ⟨some "n".toList, some "t".toList, none, []⟩

/-- `json` on the two payloads of this node. -/
def nodeJson : JsonText where
  dumps
    | .obj [_, _] => savedText
    | _ => cachedText
  loads text :=
    if text = savedText then .value (.obj (payload "n" "t" node))
    else if text = cachedText then .value (.obj (payload "n" "t" (cache node "m")))
    else .notJson

def nodeDisk : Disk Str UInt8 :=
  FileStep.run Disk.empty (FileStep.writeText "state.json".toList (encodeUtf8 savedText))

def nodeTemp : TempName nodeDisk "state.json".toList := ⟨".state-a.tmp", by decide, by decide⟩

theorem persistence_iff_node :
    RoundTrips nodeJson "state.json".toList nodeTemp.name node nodeDisk ∧
      Atomic nodeJson "state.json".toList nodeTemp.name node nodeDisk ∧
      Recorded nodeJson "state.json".toList nodeTemp.name node "m" 0 nodeDisk ↔
    Persisted nodeJson "state.json".toList nodeTemp.name node "m" 0 nodeDisk := by
  have hsave : ReadsBack nodeJson node := by
    intro nodeId nodeToken hid htoken
    cases hid
    cases htoken
    rfl
  have hrecord : ReadsBack nodeJson (cache node "m") := by
    intro nodeId nodeToken hid htoken
    cases hid
    cases htoken
    rfl
  exact persistence_iff nodeTemp node "m" 0 hsave hrecord

/-- The first call raises, the disk being full; the handler goes on, and the next one has
nothing to do. -/
def firstRecord : AgentState × Disk Str UInt8 × Except SaveError Unit :=
  recordCachedModel nodeJson "state.json".toList nodeTemp.name node "m" 0 nodeDisk

theorem not_recorded_after_refused_save : InStep nodeJson "state.json".toList node nodeDisk ∧
    (recordCachedModel nodeJson "state.json".toList nodeTemp.name firstRecord.1 "m" 1000
      firstRecord.2.1).2.2 = .ok () ∧
    ¬ Recorded nodeJson "state.json".toList nodeTemp.name firstRecord.1 "m" 1000
      firstRecord.2.1 := by
  have hfile : InStep nodeJson "state.json".toList node nodeDisk := by
    rw [InStep]
    decide +kernel
  refine ⟨hfile, by decide +kernel, fun h => ?_⟩
  have hmemory : InStep nodeJson "state.json".toList (cache node "m") nodeDisk := h.inStep
  rw [InStep] at hfile hmemory
  rw [hfile] at hmemory
  exact absurd (Except.ok.inj hmemory) (by decide)

end HadcdAgent.AgentState
