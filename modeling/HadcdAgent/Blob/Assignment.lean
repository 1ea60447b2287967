import HadcdAgent.Blob.Delivery
import HadcdAgent.Executor
import HadcdAgent.Lib.Final

/-!
# The run of a container assignment

`Agent._run_assignment` and `_post_result` (`agent/agent.py`), `BlobClient.upload` and
`upload_dir` (`agent/blob_client.py`), with `AgentExecutor.run`. What the blob
endpoints and the handler do, and what strikes at which statement, is the environment's.
-/

namespace HadcdAgent.Blob

open Lib Container

/-! ### The environment -/

/-- What may end a statement; of `raised`, the exception says whether it is an
`Exception`. -/
inductive Strike where
  | exc (e : PyExc)
  | raised (e : Executor.Exn)
  | cancelled
  deriving DecidableEq

def Strike.isException : Strike → Bool
  | .exc _ => true
  | .raised e => !e.fatal
  | .cancelled => false

/-- The statements of `_run_assignment` where something may strike, beside the
single downloads and uploads. -/
inductive Point where
  | unpack       -- up to the normalised names
  | mkdtemp
  | inputMkdir
  | postFailure
  | volumes
  | outputMkdir
  | run
  | listOutputs
  | rmtree
  | report       -- from the `finally` to the post
  | postResult
  | collect      -- from the post to the end
  deriving DecidableEq

/-- How `GET /api/blobs/{blob_id}` ends; `error` is an `httpx.HTTPError` or an `OSError`,
`strikes` anything else. -/
inductive DownloadReply where
  | response (status : ℕ) (body : List UInt8)
  | error (text : Str)
  | strikes
  deriving DecidableEq

/-- How `POST /api/blobs` of an output file ends; `failed` is an `httpx.HTTPError` or an
`OSError`. -/
inductive UploadReply where
  | response (status : ℕ) (body : Loads)
  | failed
  | strikes (s : Strike)

structure Env where
  host : Host
  tmpDir : PurePath
  nodeId : Option Str
  strikes : Point → Option Strike
  downloadStrike : Strike
  /-- Whether `rmtree`, which ignores errors, can remove the directory. -/
  removable : Bool
  statusText : ℕ → Str → Str
  repr : Str → Str
  poolBroken : Bool
  registered : List Str
  handler : Executor.TaskDict → Executor.Ending Json
  start : ℤ
  now : ℤ
  /-- The regular files of the output directory, sorted, by how their uploads end. -/
  outputs : List UploadReply
  averageWatts : Option PyFloat

/-- `args` is the payload's `args` without `input_blobs`. -/
structure Assignment where
  taskId : Json
  args : Executor.TaskDict
  inputBlobs : List (BlobSpec × DownloadReply)
  estimatedPowerW : Json

structure ResultPost where
  taskId : Json
  nodeId : Option Str
  actualPowerW : Json
  actualDurationSec : ℤ
  success : Bool
  result : Option Executor.TaskDict
  error : Option Str

structure Work where
  created : Bool
  present : Bool
  posts : List ResultPost

abbrev Act := EStateM Strike Work

def idleWork : Work := ⟨false, false, []⟩

def isSuccess (status : ℕ) : Bool := 200 ≤ status && status < 300

def answer (env : Env) (spec : BlobSpec) : DownloadReply → Answer
  | .response status body =>
    if status = 404 then .notFound
    else if isSuccess status then .served body
    else .failed (env.statusText status (("/api/blobs/" : Str) ++ spec.blobId))
  | .error text => .failed text
  | .strikes => .raises

def answers (env : Env) (a : Assignment) : List (BlobSpec × Answer) :=
  a.inputBlobs.map fun s => (s.1, answer env s.1 s.2)

def inputs (env : Env) (a : Assignment) : List (BlobSpec × Answer) :=
  (answers env a).map fun s => (normalised s.1, s.2)

def wantsOutput (a : Assignment) : Bool := (Json.get a.args "output_paths").truthy

def stages (a : Assignment) : Bool := a.inputBlobs ≠ [] || wantsOutput a

/-! ### The uploads -/

inductive UploadError where
  | blobClientError
  | other (s : Strike)

/-- `resp.json()["id"]`. -/
def idOf : Json → Except PyExc Json
  | .obj kvs =>
    match lookup ("id" : Str) kvs with
    | some id => .ok id
    | none => .error .keyError
  | _ => .error .typeError

def upload : UploadReply → Except UploadError Json
  | .response status body =>
    if isSuccess status then
      match body.result >>= idOf with
      | .ok id => .ok id
      | .error e => .error (.other (.exc e))
    else .error .blobClientError
  | .failed => .error .blobClientError
  | .strikes s => .error (.other s)

def uploadDir : List UploadReply → Except Strike (List Json)
  | [] => .ok []
  | reply :: replies =>
    match upload reply with
    | .ok id => do
      let ids ← uploadDir replies
      pure (id :: ids)
    | .error .blobClientError => uploadDir replies
    | .error (.other s) => .error s

/-! ### The statements -/

/-- The statement at the point, as far as it only may raise. -/
def strikeAt (env : Env) (p : Point) : Except Strike Unit :=
  match env.strikes p with
  | none => .ok ()
  | some s => .error s

def reach (env : Env) (p : Point) : Act Unit := liftExcept (strikeAt env p)

def mkdtemp (env : Env) : Act Unit := do
  reach env .mkdtemp
  modify fun w => { w with created := true, present := true }

def rmtree (env : Env) : Act Unit := do
  reach env .rmtree
  modify fun w => { w with present := w.present && !env.removable }

/-- `_post_result`: the request is attempted, an `Exception` from it logged. -/
def postResult (env : Env) (p : Point) (post : ResultPost) : Act Unit := fun w =>
  let w := { w with posts := w.posts ++ [post] }
  match env.strikes p with
  | none => .ok () w
  | some s => if s.isException then .ok () w else .error s w

def resultPost (env : Env) (a : Assignment) (powerW : Json) (durationSec : ℤ) (success : Bool)
    (result : Option Executor.TaskDict) (error : Option Str) : ResultPost :=
  if success then ⟨a.taskId, env.nodeId, powerW, durationSec, true, result, none⟩
  else ⟨a.taskId, env.nodeId, powerW, durationSec, false, none, error⟩

/-- `str(exc)` of a `BlobClientError`. -/
def downloadText (env : Env) : DownloadError → Str
  | .blobClientError text => text
  | .unsafeDestination blobId filename =>
    ("refusing unsafe blob destination for " : Str) ++ blobId ++ [':', ' '] ++
      (filename.map env.repr).getD "None"
  | .other => []

/-- The block for `input_blobs`; `none` is the early return. -/
def fetchInputs (env : Env) (a : Assignment) : Act (Option Executor.TaskDict) := do
  if a.inputBlobs = [] then return some a.args
  reach env .inputMkdir
  match stageInputs env.host env.tmpDir a.args (inputs env a) with
  | .ok staged => do
    reach env .volumes
    return some staged.args
  | .error (.download .other) => throw env.downloadStrike
  | .error (.download e) => do
    postResult env .postFailure (resultPost env a a.estimatedPowerW 0 false none
      (some (("blob download failed: " : Str) ++ downloadText env e)))
    rmtree env
    return none
  | .error .typeError => throw (.exc .typeError)

def withOutputDir (env : Env) (args : Executor.TaskDict) : Executor.TaskDict :=
  assign ("output_dir" : Str) (.str (env.tmpDir.join "output").str) args

def addOutput (env : Env) (a : Assignment) (args : Executor.TaskDict) : Act Executor.TaskDict := do
  if wantsOutput a then
    reach env .outputMkdir
    return withOutputDir env args
  else return args

def calls (env : Env) (args : Executor.TaskDict) : Executor.Ending Executor.TaskDict :=
  if env.poolBroken then .raises Executor.poolBroken
  else Executor.call env.registered ⟨some "container".toList, some args, env.handler⟩

def executorRun (env : Env) (args : Executor.TaskDict) : Executor.Ran :=
  let job : Executor.Job := ⟨⟨some "container".toList, some args, env.handler⟩, env.start⟩
  match calls env args with
  | .returns result => Executor.succeeded job env.now result
  | .raises e => Executor.failed job env.now e
  | .workerDies => Executor.failed job env.now Executor.workerDied

def awaited : Executor.Ran → Except Strike Executor.TaskOutcome
  | .outcome o => .ok o
  | .escapes e => .error (.raised e)

def handle (env : Env) (a : Assignment) (args : Executor.TaskDict) :
    Except Strike (Executor.TaskOutcome × List Json) := do
  strikeAt env .run
  let outcome ← awaited (executorRun env args)
  if wantsOutput a && outcome.success then
    strikeAt env .listOutputs
    let ids ← uploadDir env.outputs
    return (outcome, ids)
  else return (outcome, [])

def cleanup (env : Env) (a : Assignment) : Act Unit :=
  if stages a then rmtree env else pure ()

def withOutputs (result : Option Executor.TaskDict) (ids : List Json) : Option Executor.TaskDict :=
  if ids = [] then result else some (assign "output_blob_ids" (.arr ids) (result.getD []))

def report (env : Env) (a : Assignment) (outcome : Executor.TaskOutcome) (ids : List Json) :
    Act Unit := do
  reach env .report
  let powerW := (env.averageWatts.map Json.float).getD a.estimatedPowerW
  postResult env .postResult (resultPost env a powerW outcome.durationSec outcome.success
    (withOutputs outcome.result ids) outcome.error)
  reach env .collect

def stageFiles (env : Env) (a : Assignment) : Act (Option Executor.TaskDict) := do
  match ← fetchInputs env a with
  | none => return none
  | some args => do
    let args ← addOutput env a args
    return some args

def runStaged (env : Env) (a : Assignment) : Option Executor.TaskDict → Act Unit
  | none => pure ()
  | some args => do
    let ran ← tryFinally (liftExcept (handle env a args)) (cleanup env a)
    report env a ran.1 ran.2

def runAssignment (env : Env) (a : Assignment) : Act Unit := do
  reach env .unpack
  if stages a then mkdtemp env
  let args ← stageFiles env a
  runStaged env a args

/-! ### What the downloads come to -/

def Answer.isServed : Answer → Bool
  | .served _ => true
  | .notFound | .failed _ | .raises => false

/-- `download_all` does not get past this spec. -/
def missed (host : Host) (baseDir : PurePath) (s : BlobSpec × Answer) : Bool :=
  !(inside host baseDir (destination baseDir s.1).str && s.2.isServed)

/-- What it raises there is a `BlobClientError`. -/
def refused (host : Host) (baseDir : PurePath) (s : BlobSpec × Answer) : Bool :=
  !inside host baseDir (destination baseDir s.1).str || s.2 ≠ .raises

section Downloads

variable {host : Host} {baseDir : PurePath} {specs : List (BlobSpec × Answer)}

theorem missed_of_inside {spec : BlobSpec} {answer : Answer}
    (hin : inside host baseDir (destination baseDir spec).str = true) :
    missed host baseDir (spec, answer) = !answer.isServed := by
  rw [missed, hin, Bool.true_and]

theorem download_of_not_served (host : Host) (blobId : Str) (dest : PurePath) {answer : Answer}
    (h : answer.isServed = false) (files : Files) :
    ∃ e, download host blobId dest answer files = .error e ∧ (e = .other ↔ answer = .raises) := by
  cases answer with
  | served bytes => cases h
  | notFound => exact ⟨_, rfl, fun h => (by cases h), fun h => (by cases h)⟩
  | failed text => exact ⟨_, rfl, fun h => (by cases h), fun h => (by cases h)⟩
  | raises => exact ⟨_, rfl, fun _ => rfl, fun _ => rfl⟩

theorem downloadAll_of_fetched (h : ∀ s ∈ specs, missed host baseDir s = false) (files : Files) :
    ∃ r, downloadAll host baseDir specs files = .ok r := by
  induction specs generalizing files with
  | nil => exact ⟨_, rfl⟩
  | cons s specs ih =>
    obtain ⟨spec, answer⟩ := s
    rw [List.forall_mem_cons] at h
    obtain ⟨hs, h⟩ := h
    rw [missed, Bool.not_eq_false', Bool.and_eq_true] at hs
    cases answer with
    | served bytes =>
      obtain ⟨r, hr⟩ := ih h (files.set (host.realpath (destination baseDir spec).str) bytes)
      refine ⟨(destination baseDir spec :: r.1, r.2), ?_⟩
      simp only [downloadAll, hs.1, if_true, download, ok_bind, hr]
      rfl
    | _ => cases hs.2

theorem downloadAll_of_missed {s : BlobSpec × Answer}
    (h : specs.find? (missed host baseDir) = some s) (files : Files) :
    ∃ e, downloadAll host baseDir specs files = .error e ∧
      (e = .other ↔ refused host baseDir s = false) := by
  induction specs generalizing files with
  | nil => cases h
  | cons s' specs ih =>
    obtain ⟨spec, answer⟩ := s'
    rw [List.find?_cons] at h
    cases hin : inside host baseDir (destination baseDir spec).str with
    | false =>
      have hm : missed host baseDir (spec, answer) = true := by rw [missed, hin]; rfl
      rw [hm] at h
      cases h
      refine ⟨.unsafeDestination spec.blobId spec.filename, ?_, ?_⟩
      · simp only [downloadAll, hin, Bool.false_eq_true, if_false]
      · rw [refused, hin]
        exact ⟨fun h => (by cases h), fun h => (by cases h)⟩
    | true =>
      rw [missed_of_inside hin] at h
      cases hserved : answer.isServed with
      | false =>
        rw [hserved] at h
        cases h
        obtain ⟨e, he, hother⟩ := download_of_not_served host spec.blobId
          (destination baseDir spec) hserved files
        refine ⟨e, ?_, ?_⟩
        · simp only [downloadAll, hin, if_true, he]
          rfl
        · rw [hother, refused, hin]
          simp
      | true =>
        rw [hserved] at h
        obtain ⟨files', hfiles⟩ : ∃ files', download host spec.blobId (destination baseDir spec)
            answer files = .ok files' := by
          cases answer with
          | served bytes => exact ⟨_, rfl⟩
          | _ => cases hserved
        obtain ⟨e, he, hiff⟩ := ih h files'
        refine ⟨e, ?_, hiff⟩
        simp only [downloadAll, hin, if_true, hfiles, ok_bind, he]
        rfl

end Downloads

section Inputs

variable (env : Env) (a : Assignment)

abbrev missedInput : BlobSpec × Answer → Bool := missed env.host (env.tmpDir.join "input")

def Fetched : Prop := ∀ s ∈ inputs env a, missedInput env s = false

/-- The first input that is not fetched fails with a `BlobClientError`. -/
def Refused : Prop :=
  ∃ s, (inputs env a).find? (missedInput env) = some s ∧
    refused env.host (env.tmpDir.join "input") s = true

/-- `list(args.get("volumes") or [])`. -/
def existingVolumes : Option (List Json) := listOf ((Json.get a.args "volumes").or (.arr []))

def InputsReady : Prop :=
  a.inputBlobs ≠ [] → env.strikes .inputMkdir = none ∧ Fetched env a ∧
    existingVolumes a ≠ none ∧ env.strikes .volumes = none

/-- The early return is reached. -/
def GivesUp : Prop :=
  a.inputBlobs ≠ [] ∧ env.strikes .inputMkdir = none ∧ Refused env a ∧
    ∀ s, env.strikes .postFailure = some s → s.isException = true

def removes : Bool := (env.strikes .rmtree).isNone && env.removable

variable {env a}

theorem fetched_iff : Fetched env a ↔ (inputs env a).find? (missedInput env) = none := by
  rw [List.find?_eq_none]
  exact forall₂_congr fun s _ => (Bool.not_eq_true _).symm.to_iff

theorem reach_of_none {p : Point} (h : env.strikes p = none) (w : Work) :
    reach env p w = .ok () w := by
  rw [reach, strikeAt, h]
  rfl

theorem reach_of_some {p : Point} {s : Strike} (h : env.strikes p = some s) (w : Work) :
    reach env p w = .error s w := by
  rw [reach, strikeAt, h]
  rfl

theorem inputs_ne_nil (h : a.inputBlobs ≠ []) : inputs env a ≠ [] := by
  intro hnil
  rw [inputs, answers, List.map_map, List.map_eq_nil_iff] at hnil
  exact h hnil

theorem stages_of_inputs (h : a.inputBlobs ≠ []) : stages a = true := by
  rw [stages, decide_eq_true h, Bool.true_or]

theorem stageInputs_of_fetched (hne : a.inputBlobs ≠ []) (h : Fetched env a) :
    (existingVolumes a = none ∧
      stageInputs env.host env.tmpDir a.args (inputs env a) = .error .typeError) ∨
    (existingVolumes a ≠ none ∧
      ∃ staged, stageInputs env.host env.tmpDir a.args (inputs env a) = .ok staged) := by
  obtain ⟨⟨paths, files⟩, hr⟩ := downloadAll_of_fetched h Dict.empty
  simp only [stageInputs, inputs_ne_nil hne, if_false, hr, existingVolumes]
  cases listOf ((Json.get a.args "volumes").or (.arr [])) with
  | none => exact Or.inl ⟨rfl, rfl⟩
  | some existing => exact Or.inr ⟨fun h => (by cases h), _, rfl⟩

theorem stageInputs_of_missed (hne : a.inputBlobs ≠ []) {s : BlobSpec × Answer}
    (h : (inputs env a).find? (missedInput env) = some s) :
    ∃ e, stageInputs env.host env.tmpDir a.args (inputs env a) = .error (.download e) ∧
      (e = .other ↔ refused env.host (env.tmpDir.join "input") s = false) := by
  obtain ⟨e, he, hiff⟩ := downloadAll_of_missed h Dict.empty
  refine ⟨e, ?_, hiff⟩
  simp only [stageInputs, inputs_ne_nil hne, if_false, he]

theorem fetchInputs_of_nil (h : a.inputBlobs = []) (w : Work) :
    fetchInputs env a w = .ok (some a.args) w := by
  rw [fetchInputs, if_pos h]
  rfl

theorem fetchInputs_of_staged (hne : a.inputBlobs ≠ []) (hdir : env.strikes .inputMkdir = none)
    {staged : Staged} (hs : stageInputs env.host env.tmpDir a.args (inputs env a) = .ok staged)
    (w : Work) :
    fetchInputs env a w = (do reach env .volumes; pure (some staged.args) : Act _) w := by
  rw [fetchInputs, if_neg hne, bind_of_ok (reach_of_none hdir w), hs]

def failurePost (env : Env) (a : Assignment) (e : DownloadError) : ResultPost :=
  resultPost env a a.estimatedPowerW 0 false none
    (some (("blob download failed: " : Str) ++ downloadText env e))

theorem fetchInputs_of_error (hne : a.inputBlobs ≠ []) (hdir : env.strikes .inputMkdir = none)
    {e : DownloadError} (hother : e ≠ .other)
    (hs : stageInputs env.host env.tmpDir a.args (inputs env a) = .error (.download e)) (w : Work) :
    fetchInputs env a w = (do
      postResult env .postFailure (failurePost env a e)
      rmtree env
      pure none : Act _) w := by
  rw [fetchInputs, if_neg hne, bind_of_ok (reach_of_none hdir w), hs]
  cases e with
  | other => exact absurd rfl hother
  | _ => rfl

theorem postResult_of_exceptions {p : Point}
    (h : ∀ s, env.strikes p = some s → s.isException = true) (post : ResultPost) (w : Work) :
    postResult env p post w = .ok () { w with posts := w.posts ++ [post] } := by
  rw [postResult]
  cases hs : env.strikes p with
  | none => rfl
  | some s => exact if_pos (h s hs)

theorem postResult_of_fatal {p : Point} {s : Strike} (hs : env.strikes p = some s)
    (h : s.isException = false) (post : ResultPost) (w : Work) :
    postResult env p post w = .error s { w with posts := w.posts ++ [post] } := by
  rw [postResult, hs]
  exact if_neg (by rw [h]; exact Bool.false_ne_true)

theorem fetchInputs_of_fetched (hne : a.inputBlobs ≠ []) (hdir : env.strikes .inputMkdir = none)
    (hfetched : Fetched env a) (w : Work) :
    (InputsReady env a ∧ ∃ staged,
      stageInputs env.host env.tmpDir a.args (inputs env a) = .ok staged ∧
      fetchInputs env a w = .ok (some staged.args) w) ∨
    (¬ InputsReady env a ∧ ∃ s, fetchInputs env a w = .error s w) := by
  rcases stageInputs_of_fetched hne hfetched with ⟨hnone, herr⟩ | ⟨hsome, staged, hok⟩
  · refine Or.inr ⟨fun h => (h hne).2.2.1 hnone, .exc .typeError, ?_⟩
    rw [fetchInputs, if_neg hne, bind_of_ok (reach_of_none hdir w), herr]
    rfl
  cases hvol : env.strikes .volumes with
  | none =>
    refine Or.inl ⟨fun _ => ⟨hdir, hfetched, hsome, hvol⟩, staged, hok, ?_⟩
    rw [fetchInputs_of_staged hne hdir hok, bind_of_ok (reach_of_none hvol w)]
    rfl
  | some s =>
    refine Or.inr ⟨fun h => ?_, s, ?_⟩
    · cases hvol.symm.trans (h hne).2.2.2
    · rw [fetchInputs_of_staged hne hdir hok, bind_of_error (reach_of_some hvol w)]

theorem fetchInputs_of_missed (hne : a.inputBlobs ≠ []) (hdir : env.strikes .inputMkdir = none)
    {s : BlobSpec × Answer} (hfind : (inputs env a).find? (missedInput env) = some s) (w : Work) :
    (GivesUp env a ∧ ∃ e, fetchInputs env a w = (do rmtree env; pure none : Act _)
      { w with posts := w.posts ++ [failurePost env a e] }) ∨
    (¬ GivesUp env a ∧ ∃ s posts,
      fetchInputs env a w = .error s { w with posts := w.posts ++ posts }) := by
  obtain ⟨e, hs, hother⟩ := stageInputs_of_missed hne hfind
  cases href : refused env.host (env.tmpDir.join "input") s with
  | false =>
    obtain rfl : e = .other := hother.mpr href
    refine Or.inr ⟨?_, env.downloadStrike, [], ?_⟩
    · rintro ⟨-, -, ⟨s', hs', href'⟩, -⟩
      cases hfind.symm.trans hs'
      cases href.symm.trans href'
    · rw [fetchInputs, if_neg hne, bind_of_ok (reach_of_none hdir w), hs, List.append_nil]
      rfl
  | true =>
    have he : e ≠ .other := fun h => by
      cases href.symm.trans (hother.mp h)
    rw [fetchInputs_of_error hne hdir he hs]
    by_cases hpost : ∀ s, env.strikes .postFailure = some s → s.isException = true
    · refine Or.inl ⟨⟨hne, hdir, ⟨s, hfind, href⟩, hpost⟩, e, ?_⟩
      rw [bind_of_ok (postResult_of_exceptions hpost _ w)]
    · refine Or.inr ⟨fun h => hpost h.2.2.2, ?_⟩
      push Not at hpost
      obtain ⟨s', hs', hfatal⟩ := hpost
      refine ⟨s', [failurePost env a e], ?_⟩
      rw [bind_of_error (postResult_of_fatal hs' (Bool.not_eq_true _ ▸ hfatal) _ w)]

theorem InputsReady.not_givesUp (h : InputsReady env a) : ¬ GivesUp env a := by
  rintro ⟨hne, -, ⟨s, hs, -⟩, -⟩
  cases (fetched_iff.mp (h hne).2.1).symm.trans hs

/-- The three ways out of the block: on to the handler, the early return, a raise that
leaves the directory as it is. -/
theorem fetchInputs_cases (env : Env) (a : Assignment) (w : Work) :
    (InputsReady env a ∧ ∃ staged,
      stageInputs env.host env.tmpDir a.args (inputs env a) = .ok staged ∧
      fetchInputs env a w = .ok (some staged.args) w) ∨
    (GivesUp env a ∧ ∃ e, fetchInputs env a w = (do rmtree env; pure none : Act _)
      { w with posts := w.posts ++ [failurePost env a e] }) ∨
    (¬ InputsReady env a ∧ ¬ GivesUp env a ∧ ∃ s posts,
      fetchInputs env a w = .error s { w with posts := w.posts ++ posts }) := by
  by_cases hne : a.inputBlobs = []
  · refine Or.inl ⟨fun h => absurd hne h, ⟨[], Dict.empty, a.args⟩, ?_, fetchInputs_of_nil hne w⟩
    rw [inputs, answers, hne]
    rfl
  cases hdir : env.strikes .inputMkdir with
  | some s =>
    refine Or.inr (Or.inr ⟨fun h => ?_, fun h => ?_, s, [], ?_⟩)
    · cases hdir.symm.trans (h hne).1
    · cases hdir.symm.trans h.2.1
    · rw [fetchInputs, if_neg hne, bind_of_error (reach_of_some hdir w), List.append_nil]
  | none =>
    cases hfind : (inputs env a).find? (missedInput env) with
    | none =>
      rcases fetchInputs_of_fetched hne hdir (fetched_iff.mpr hfind) w with h | ⟨hready, s, h⟩
      · exact Or.inl h
      · refine Or.inr (Or.inr ⟨hready, ?_, s, [], ?_⟩)
        · rintro ⟨-, -, ⟨s, hs, -⟩, -⟩
          cases hfind.symm.trans hs
        · rw [h, List.append_nil]
    | some s =>
      have hready : ¬ InputsReady env a := by
        intro h
        cases hfind.symm.trans (fetched_iff.mp (h hne).2.1)
      rcases fetchInputs_of_missed hne hdir hfind w with h | h
      · exact Or.inr (Or.inl h)
      · exact Or.inr (Or.inr ⟨hready, h⟩)

def ReachesTry (env : Env) (a : Assignment) : Prop :=
  InputsReady env a ∧ (wantsOutput a = true → env.strikes .outputMkdir = none)

theorem addOutput_of_ready (h : wantsOutput a = true → env.strikes .outputMkdir = none)
    (args : Executor.TaskDict) (w : Work) :
    addOutput env a args w = .ok (if wantsOutput a then withOutputDir env args else args) w := by
  rw [addOutput]
  split_ifs with hw
  · rw [bind_of_ok (reach_of_none (h hw) w)]
    rfl
  · rfl

theorem stage_of_staged {staged : Staged}
    (h : stageInputs env.host env.tmpDir a.args (inputs env a) = .ok staged) :
    ∃ staged', stage env.host env.tmpDir a.args (answers env a) = .ok staged' ∧
      staged'.args = if wantsOutput a then withOutputDir env staged.args else staged.args := by
  rw [inputs] at h
  rw [stage, h, ok_bind]
  unfold wantsOutput
  split_ifs
  · exact ⟨_, rfl, rfl⟩
  · exact ⟨_, rfl, rfl⟩

theorem stageFiles_cases (env : Env) (a : Assignment) (w : Work) :
    (ReachesTry env a ∧ ∃ staged, stage env.host env.tmpDir a.args (answers env a) = .ok staged ∧
      stageFiles env a w = .ok (some staged.args) w) ∨
    (GivesUp env a ∧ ∃ e, stageFiles env a w = (do rmtree env; pure none : Act _)
      { w with posts := w.posts ++ [failurePost env a e] }) ∨
    (¬ ReachesTry env a ∧ ¬ GivesUp env a ∧ ∃ s posts,
      stageFiles env a w = .error s { w with posts := w.posts ++ posts }) := by
  rcases fetchInputs_cases env a w with ⟨hready, staged, hs, hf⟩ | ⟨hup, e, hf⟩ |
    ⟨hready, hup, s, posts, hf⟩
  · by_cases hout : wantsOutput a = true → env.strikes .outputMkdir = none
    · obtain ⟨staged', hs', hargs⟩ := stage_of_staged hs
      refine Or.inl ⟨⟨hready, hout⟩, staged', hs', ?_⟩
      rw [stageFiles, bind_of_ok hf]
      dsimp only
      rw [bind_of_ok (addOutput_of_ready hout staged.args w), hargs]
      rfl
    · push Not at hout
      obtain ⟨hw, hmk⟩ := hout
      obtain ⟨s, hs'⟩ := Option.ne_none_iff_exists'.mp hmk
      refine Or.inr (Or.inr ⟨fun h => hmk (h.2 hw), hready.not_givesUp, s, [], ?_⟩)
      rw [stageFiles, bind_of_ok hf]
      dsimp only
      rw [bind_of_error (e := s) (t := w), List.append_nil]
      rw [addOutput, if_pos hw, bind_of_error (reach_of_some hs' w)]
  · refine Or.inr (Or.inl ⟨hup, e, ?_⟩)
    rw [stageFiles]
    cases hr : rmtree env { w with posts := w.posts ++ [failurePost env a e] } with
    | ok _ t =>
      rw [bind_of_ok hr] at hf ⊢
      rw [bind_of_ok hf]
    | error s t =>
      rw [bind_of_error hr] at hf ⊢
      rw [bind_of_error hf]
  · refine Or.inr (Or.inr ⟨fun h => hready h.1, hup, s, posts, ?_⟩)
    rw [stageFiles, bind_of_error hf]

theorem final_reach (p : Point) (w : Work) : final (reach env p) w = w :=
  final_liftExcept (strikeAt env p) w

theorem final_of_givesUp {w w' : Work}
    (h : stageFiles env a w = (do rmtree env; pure none : Act _) w') :
    final (do let args ← stageFiles env a; runStaged env a args : Act _) w =
      final (rmtree env) w' := by
  cases hr : rmtree env w' with
  | ok u t =>
    rw [bind_of_ok hr] at h
    rw [final_bind_of_ok h, final_of_ok hr]
    rfl
  | error s t =>
    rw [bind_of_error hr] at h
    rw [final_bind_of_error h, final_of_error hr]

end Inputs

def quietEnv (outputs : List UploadReply) : Env where
  host := plainHost
  tmpDir := plainDir
  nodeId := some "n1"
  strikes := fun _ => none
  downloadStrike := .cancelled
  removable := true
  statusText := fun _ path => path
  repr := id
  poolBroken := false
  registered := ["container".toList]
  handler := fun _ => .returns (.obj [])
  start := 0
  now := 5
  outputs := outputs
  averageWatts := none

end HadcdAgent.Blob
