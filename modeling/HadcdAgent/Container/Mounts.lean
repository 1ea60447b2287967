import HadcdAgent.Lib.Json
import HadcdAgent.Lib.Exc

/-!
# The bind mounts of a container task

`_is_within`, `_check_mount_allowed` and the part of `_container` that turns
`volumes` and `output_dir` into the `volumes` argument of `run()`
(`hadcd_workloads/container.py`), on POSIX.
-/

namespace HadcdAgent.Container

open Lib Lib.PyStr

/-- What the checks read of the host: `os.path.realpath`, `tempfile.gettempdir()`
and the value of `HADCD_MOUNT_ALLOWLIST`, empty when it is not set. -/
structure Host where
  realpath : Str → Str
  tempdir : Str
  mountAllowlist : Str

structure Mount where
  bind : Str
  mode : Str
  deriving DecidableEq

/-- The `ValueError`s of the volume checks; that of `_check_mount_allowed` quotes
the path. -/
inductive MountError where
  | invalid (text : Str)
  | notAllowlisted (hostPath : Str)

def blobStagingPrefix : Str := "hadcd-blobs-"

def asParent (path : Str) : Str := path.rdropWhile (· = '/') ++ ['/']

def isWithin (host : Host) (path parent : Str) : Bool :=
  host.realpath path = host.realpath parent ||
    (asParent (host.realpath parent)).isPrefixOf (host.realpath path)

def checkMountAllowed (host : Host) (hostPath : Str) : Except MountError Unit :=
  let stagingRoot := asParent (host.realpath host.tempdir) ++ blobStagingPrefix
  if stagingRoot.isPrefixOf (host.realpath hostPath) then .ok ()
  else if ((host.mountAllowlist.splitOn ':').map strip).any
      fun entry => entry ≠ [] && isWithin host hostPath entry then .ok ()
  else .error (.notAllowlisted hostPath)

/-- `if not value or not isinstance(value, str): raise …`. -/
def requiredStr (value : Json) (text : Str) : Except MountError Str :=
  match value with
  | .str s => if s = [] then .error (.invalid text) else .ok s
  | _ => .error (.invalid text)

def volumeText (i : ℕ) (rest : Str) : Str :=
  ("volumes[" : Str) ++ (toString i).toList ++ [']'] ++ rest

def checkMode (i : ℕ) (value : Option Json) : Except MountError Str :=
  match value with
  | none => .ok "ro"
  | some (.str mode) =>
    if mode ∈ (["ro", "rw"] : List Str) then .ok mode
    else .error (.invalid (volumeText i ".mode must be 'ro' or 'rw'"))
  | some _ => .error (.invalid (volumeText i ".mode must be 'ro' or 'rw'"))

/-- The checks on one entry of `volumes`. -/
def checkVolume (host : Host) (i : ℕ) (volume : Json) : Except MountError (Str × Mount) :=
  match volume with
  | .obj v => do
    let hostPath ← requiredStr (Json.get v "host_path")
      (volumeText i ".host_path (str) is required")
    let containerPath ← requiredStr (Json.get v "container_path")
      (volumeText i ".container_path (str) is required")
    let mode ← checkMode i (lookup ("mode" : Str) v)
    checkMountAllowed host hostPath
    pure (hostPath, ⟨containerPath, mode⟩)
  | _ => .error (.invalid (volumeText i " must be a dict"))

def addVolumes (host : Host) : ℕ → List Json → Dict Str Mount → Except MountError (Dict Str Mount)
  | _, [], d => .ok d
  | i, volume :: volumes, d => do
    let entry ← checkVolume host i volume
    addVolumes host (i + 1) volumes (d.set entry.1 entry.2)

def addOutputDir (host : Host) (outputDir : Json) (d : Dict Str Mount) :
    Except MountError (Dict Str Mount) :=
  match outputDir with
  | .null => .ok d
  | .str dir => do
    checkMountAllowed host dir
    pure (d.set dir ⟨"/output", "rw"⟩)
  | _ => .error (.invalid "'output_dir' must be a string path")

def volumesFromList (host : Host) (rawVolumes : Json) : Except MountError (Dict Str Mount) :=
  match rawVolumes with
  | .arr vs => addVolumes host 0 vs Dict.empty
  | _ => .error (.invalid "'volumes' must be a list of {host_path, container_path, mode?}")

def volumesDict (host : Host) (args : List (Str × Json)) : Except MountError (Dict Str Mount) := do
  let volumes ← volumesFromList host ((Json.get args "volumes").or (.arr []))
  addOutputDir host (Json.get args "output_dir") volumes

/-! ### What an accepted payload mounts -/

theorem requiredStr_eq_ok {value : Json} {text s : Str} (h : requiredStr value text = .ok s) :
    value = .str s ∧ s ≠ [] := by
  cases value with
  | str t =>
    simp only [requiredStr] at h
    split_ifs at h with ht
    cases h
    exact ⟨rfl, ht⟩
  | _ => cases h

theorem checkVolume_eq_ok {host : Host} {i : ℕ} {volume : Json} {entry : Str × Mount}
    (h : checkVolume host i volume = .ok entry) :
    ∃ v, volume = .obj v ∧ Json.get v "host_path" = .str entry.1 ∧
      Json.get v "container_path" = .str entry.2.bind ∧
      checkMode i (lookup ("mode" : Str) v) = .ok entry.2.mode ∧
      checkMountAllowed host entry.1 = .ok () := by
  cases volume with
  | obj v =>
    obtain ⟨hostPath, hh, h⟩ := bind_eq_ok h
    obtain ⟨containerPath, hc, h⟩ := bind_eq_ok h
    obtain ⟨mode, hm, h⟩ := bind_eq_ok h
    obtain ⟨_, ha, h⟩ := bind_eq_ok h
    cases h
    exact ⟨v, rfl, (requiredStr_eq_ok hh).1, (requiredStr_eq_ok hc).1, hm, ha⟩
  | _ => cases h

theorem addVolumes_append {host : Host} {i : ℕ} {vs ws : List Json} {d d' : Dict Str Mount}
    (h : addVolumes host i (vs ++ ws) d = .ok d') :
    ∃ e, addVolumes host i vs d = .ok e ∧ addVolumes host (i + vs.length) ws e = .ok d' := by
  induction vs generalizing i d with
  | nil => exact ⟨d, rfl, h⟩
  | cons v vs ih =>
    obtain ⟨entry, hv, h⟩ := bind_eq_ok h
    obtain ⟨e, he, h⟩ := ih h
    refine ⟨e, ?_, ?_⟩
    · rw [addVolumes, hv]
      exact he
    · rwa [List.length_cons, ← Nat.add_assoc, Nat.add_right_comm]

theorem mem_of_addVolumes {host : Host} {i : ℕ} {vs : List Json} {d d' : Dict Str Mount}
    (h : addVolumes host i vs d = .ok d') {hostPath : Str} {m : Mount}
    (hm : d'.get hostPath = some m) :
    d.get hostPath = some m ∨ ∃ v, .obj v ∈ vs ∧ Json.get v "host_path" = .str hostPath := by
  induction vs generalizing i d with
  | nil => cases h; exact Or.inl hm
  | cons v vs ih =>
    obtain ⟨entry, hv, h⟩ := bind_eq_ok h
    rcases ih h with hd | ⟨w, hw, hh⟩
    · by_cases hk : entry.1 = hostPath
      · obtain ⟨w, rfl, hh, -⟩ := checkVolume_eq_ok hv
        exact Or.inr ⟨w, List.mem_cons_self .., by rw [← hk]; exact hh⟩
      · rw [Dict.get_set, if_neg hk] at hd
        exact Or.inl hd
    · exact Or.inr ⟨w, List.mem_cons_of_mem _ hw, hh⟩

end HadcdAgent.Container
