import HadcdAgent.Lib.PyPath
import HadcdAgent.Container.Mounts

/-!
# Staging the input blobs of a container task

`safe_blob_name` and `BlobClient.download_all` (`agent/blob_client.py`) and the
blob pre-processing of `Agent._run_assignment` (`agent/agent.py`), up to the
arguments that the container handler receives.
-/

namespace HadcdAgent.Blob

open Lib Lib.PyStr Container

/-! ### The source -/

def safeBlobName (name : Option Str) (fallback : Str) : Str :=
  let slashed := (name.getD []).map fun c => if c = '\\' then '/' else c
  let base := strip ((slashed.splitOn '/').getLastD [])
  if base ∈ ([[], ['.'], ['.', '.']] : List Str) then fallback else base

/-- An entry of `input_blobs`: `str(blob_id)`, the file name (`none` when it is
absent or falsy) and the container path if there is one. -/
structure BlobSpec where
  blobId : Str
  filename : Option Str
  containerPath : Option Json

/-- How `GET /api/blobs/{blob_id}` and the writing of its body end; `raises` is an
exception that `download` does not turn into a `BlobClientError`. -/
inductive Answer where
  | served (bytes : List UInt8)
  | notFound
  | failed (exc : Str)
  | raises
  deriving DecidableEq

inductive DownloadError where
  | blobClientError (text : Str)
  | unsafeDestination (blobId : Str) (filename : Option Str)
  | other

/-- The regular files that exist, by their real paths. -/
abbrev Files := Dict Str (List UInt8)

/-- `BlobClient.download`, once the destination has been checked. -/
def download (host : Host) (blobId : Str) (dest : PurePath) (answer : Answer) (files : Files) :
    Except DownloadError Files :=
  match answer with
  | .served bytes => .ok (files.set (host.realpath dest.str) bytes)
  | .notFound => .error (.blobClientError (("blob " : Str) ++ blobId ++ " not found on server"))
  | .failed exc =>
    .error (.blobClientError (("failed to download blob " : Str) ++ blobId ++ [':', ' '] ++ exc))
  | .raises => .error .other

/-- `base_dir / safe_blob_name(spec.get("filename"), spec["blob_id"])`. -/
def destination (baseDir : PurePath) (spec : BlobSpec) : PurePath :=
  baseDir.join (safeBlobName spec.filename spec.blobId)

/-- `dest.resolve().is_relative_to(base_dir.resolve())`. -/
def inside (host : Host) (baseDir : PurePath) (path : Str) : Bool :=
  (PurePath.ofStr (host.realpath path)).isRelativeTo (.ofStr (host.realpath baseDir.str))

def downloadAll (host : Host) (baseDir : PurePath) :
    List (BlobSpec × Answer) → Files → Except DownloadError (List PurePath × Files)
  | [], files => .ok ([], files)
  | (spec, answer) :: specs, files =>
    let dest := destination baseDir spec
    if inside host baseDir dest.str then do
      let files ← download host spec.blobId dest answer files
      let rest ← downloadAll host baseDir specs files
      pure (dest :: rest.1, rest.2)
    else .error (.unsafeDestination spec.blobId spec.filename)

/-- The first loop of `_run_assignment`: the name is made safe up front. -/
def normalised (spec : BlobSpec) : BlobSpec :=
  { spec with filename := some (safeBlobName spec.filename spec.blobId) }

def blobFilename (spec : BlobSpec) : Str :=
  match spec.filename with
  | some (c :: name) => c :: name
  | _ => spec.blobId

def hostPath (inputDir : PurePath) (spec : BlobSpec) : Str := (inputDir.join (blobFilename spec)).str

def containerPath (spec : BlobSpec) : Json :=
  spec.containerPath.getD (.str (("/input/" : Str) ++ blobFilename spec))

/-- The entry that a spec adds to `volumes`. -/
def volumeOf (inputDir : PurePath) (spec : BlobSpec) : Json :=
  .obj [("host_path", .str (hostPath inputDir spec)), ("container_path", containerPath spec),
    ("mode", .str "ro")]

/-- `list(x)` of a JSON value; `none` is the `TypeError`. -/
def listOf : Json → Option (List Json)
  | .arr xs => some xs
  | .obj kvs => some (kvs.map fun kv => .str kv.1)
  | .str s => some (s.map fun c => .str [c])
  | .null | .bool _ | .int _ | .float _ => none

inductive StagingError where
  | download (e : DownloadError)
  | typeError

/-- What the pre-processing hands on: the paths that `download_all` returned, the
files written and the handler's `args`. -/
structure Staged where
  paths : List PurePath
  files : Files
  args : List (Str × Json)

def stageInputs (host : Host) (tmpDir : PurePath) (args : List (Str × Json))
    (specs : List (BlobSpec × Answer)) : Except StagingError Staged :=
  if specs = [] then .ok ⟨[], Dict.empty, args⟩
  else
    let inputDir := tmpDir.join "input"
    match downloadAll host inputDir specs Dict.empty with
    | .error e => .error (.download e)
    | .ok (paths, files) =>
      match listOf ((Json.get args "volumes").or (.arr [])) with
      | none => .error .typeError
      | some existing =>
        .ok ⟨paths, files,
          assign "volumes" (.arr (existing ++ specs.map fun s => volumeOf inputDir s.1)) args⟩

/-- The pre-processing of `_run_assignment` for a container task; `args` is the
payload's `args` without `input_blobs`. -/
def stage (host : Host) (tmpDir : PurePath) (args : List (Str × Json))
    (inputBlobs : List (BlobSpec × Answer)) : Except StagingError Staged := do
  let staged ← stageInputs host tmpDir args (inputBlobs.map fun s => (normalised s.1, s.2))
  if (Json.get args "output_paths").truthy then
    pure { staged with
      args := assign "output_dir" (.str (tmpDir.join "output").str) staged.args }
  else pure staged

/-! ### What the steps return -/

theorem inside_congr {host : Host} {baseDir : PurePath} {p q : Str}
    (h : host.realpath p = host.realpath q) : inside host baseDir p = inside host baseDir q := by
  rw [inside, inside, h]

theorem download_eq_ok {host : Host} {blobId : Str} {dest : PurePath} {answer : Answer}
    {files files' : Files} (h : download host blobId dest answer files = .ok files') :
    ∃ bytes, answer = .served bytes ∧ files' = files.set (host.realpath dest.str) bytes := by
  cases answer with
  | served bytes => cases h; exact ⟨bytes, rfl, rfl⟩
  | _ => cases h

def Answer.body : Answer → List UInt8
  | .served bytes => bytes
  | _ => []

/-- What `download_all` writes for a spec, and where. -/
def written (host : Host) (baseDir : PurePath) (s : BlobSpec × Answer) : Str × List UInt8 :=
  (host.realpath (destination baseDir s.1).str, s.2.body)

theorem downloadAll_eq_ok {host : Host} {baseDir : PurePath} {specs : List (BlobSpec × Answer)}
    {files files' : Files} {paths : List PurePath}
    (h : downloadAll host baseDir specs files = .ok (paths, files')) :
    paths = specs.map (fun s => destination baseDir s.1) ∧
    (∀ s ∈ specs, inside host baseDir (destination baseDir s.1).str = true ∧
      s.2 = .served s.2.body) ∧
    files' = (specs.map (written host baseDir)).foldl (fun d kv => d.set kv.1 kv.2) files := by
  induction specs generalizing files paths with
  | nil =>
    cases h
    exact ⟨rfl, fun _ hs => (nomatch hs), rfl⟩
  | cons s specs ih =>
    obtain ⟨spec, answer⟩ := s
    simp only [downloadAll] at h
    split_ifs at h with hin
    obtain ⟨files₁, hd, h⟩ := bind_eq_ok h
    obtain ⟨⟨paths', files₂⟩, hrest, h⟩ := bind_eq_ok h
    cases h
    obtain ⟨bytes, rfl, rfl⟩ := download_eq_ok hd
    obtain ⟨rfl, hall, rfl⟩ := ih hrest
    refine ⟨rfl, ?_, rfl⟩
    rw [List.forall_mem_cons]
    exact ⟨⟨hin, rfl⟩, hall⟩

def outputDir (tmpDir : PurePath) (args : List (Str × Json)) : Json :=
  if (Json.get args "output_paths").truthy then .str (tmpDir.join "output").str
  else Json.get args "output_dir"

end HadcdAgent.Blob
