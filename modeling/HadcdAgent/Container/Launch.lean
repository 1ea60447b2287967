import HadcdAgent.Container.Mounts
import HadcdAgent.Container.Security
import HadcdAgent.Lib.AbsPath

/-!
# A container task up to its start

`_container` (`hadcd_workloads/container.py`) from the checks on the payload to
`client.containers.run`, on POSIX: `realpath` yields normalised absolute paths and
`normcase` changes nothing.
-/

namespace HadcdAgent.Container

open Lib Lib.PyStr

/-! ### The source -/

/-- `float` of a string and `str` of a JSON value. -/
structure Python where
  floatOfStr : Str → Option PyFloat
  str : Json → Str

inductive ContainerError where
  | sdkMissing
  | valueError (text : Str)
  | overflowError
  | mount (e : MountError)
  | daemonUnreachable
  | security (e : BuildError)

structure Request where
  image : Str
  command : Json
  environment : List (Str × Str)
  timeoutSec : PyFloat
  gpuRequest : Bool
  volumes : Dict Str Mount

/-- The keyword arguments of `client.containers.run`. -/
structure RunKwargs where
  image : Str
  command : Json
  environment : List (Str × Str)
  allGpus : Bool
  volumes : Option (Dict Str Mount)
  detach : Bool
  autoRemove : Bool
  security : SecurityKwargs

inductive DockerCall where
  | fromEnv
  | networks
  | run (kwargs : RunKwargs)

def checkImage : Json → Except ContainerError Str
  | .str image => if image = [] then .error (.valueError "'image' (str) is required") else .ok image
  | _ => .error (.valueError "'image' (str) is required")

def checkCommand : Json → Except ContainerError Json
  | .null => .ok .null
  | .str command => .ok (.str command)
  | .arr command => .ok (.arr command)
  | _ => .error (.valueError "'command' must be a string or list of strings")

def checkEnv (py : Python) (env : Json) : Except ContainerError (List (Str × Str)) :=
  match env.or (.obj []) with
  | .obj kvs => .ok (kvs.map fun kv => (kv.1, py.str kv.2))
  | _ => .error (.valueError "'env' must be a dict")

/-- `float(args.get("timeout_sec", DEFAULT_TIMEOUT_SEC))`. -/
def timeoutValue (py : Python) : Option Json → Except ContainerError PyFloat
  | none => .ok (.fin 600)
  | some (.str s) =>
    match py.floatOfStr s with
    | some x => .ok x
    | none => .error (.valueError "'timeout_sec' must be a number")
  | some x =>
    match x.optionalFloat with
    | .ok (some t) => .ok t
    | .ok none => .error (.valueError "'timeout_sec' must be a number")
    | .error _ => .error .overflowError

/-- `timeout_sec <= 0 or timeout_sec > MAX_TIMEOUT_SEC`; a NaN is neither. -/
def timeoutOutOfRange : PyFloat → Bool
  | .fin q => q ≤ 0 || 86400 < q
  | .inf | .negInf => true
  | .nan => false

def checkTimeout (py : Python) (value : Option Json) : Except ContainerError PyFloat := do
  let timeout ← timeoutValue py value
  if timeoutOutOfRange timeout then .error (.valueError "'timeout_sec' must be between 0 and 86400")
  else pure timeout

def parseArgs (host : Host) (py : Python) (args : List (Str × Json)) :
    Except ContainerError Request := do
  let image ← checkImage (Json.get args "image")
  let command ← checkCommand (Json.get args "command")
  let environment ← checkEnv py (Json.get args "env")
  let timeoutSec ← checkTimeout py (lookup ("timeout_sec" : Str) args)
  let volumes ← (volumesDict host args).mapError .mount
  pure ⟨image, command, environment, timeoutSec, (Json.get args "gpu_request").truthy, volumes⟩

/-- `volumes_dict or None`. -/
def volumesOrNone (d : Dict Str Mount) : Option (Dict Str Mount) :=
  if d.items = [] then none else some d

def runKwargs (r : Request) (security : SecurityKwargs) : RunKwargs :=
  ⟨r.image, r.command, r.environment, r.gpuRequest, volumesOrNone r.volumes, true, false, security⟩

/-- How the Docker client answers before the start. -/
structure Daemon where
  sdkInstalled : Bool
  reachable : Bool
  networks : NetworkClient

/-- `_container` up to the start: the calls of Docker and the error, if any, that
comes before `run()`. -/
def container (host : Host) (py : Python) (daemon : Daemon) (environ : Dict Str Str)
    (args : List (Str × Json)) : List DockerCall × Option ContainerError :=
  if daemon.sdkInstalled then
    match parseArgs host py args with
    | .error e => ([], some e)
    | .ok request =>
      if daemon.reachable then
        match buildSecurityKwargs daemon.networks environ args with
        | .error e => ([.fromEnv, .networks], some (.security e))
        | .ok security => ([.fromEnv, .networks, .run (runKwargs request security)], none)
      else ([.fromEnv], some .daemonUnreachable)
  else ([], some .sdkMissing)

def posixHost (resolve : Str → AbsPath) (tempdir : Str) (environ : Dict Str Str) : Host :=
  ⟨fun path => (resolve path).str, tempdir, (environ.get "HADCD_MOUNT_ALLOWLIST").getD []⟩

/-! ### The policy -/

/-- Within a blob-staging directory of the agent. -/
def Staged (resolve : Str → AbsPath) (tempdir path : Str) : Prop :=
  ∃ name rest, (resolve path).parts = (resolve tempdir).parts ++ name :: rest ∧
    blobStagingPrefix <+: name

/-- At or beneath a directory of the allowlist. -/
def Listed (resolve : Str → AbsPath) (environ : Dict Str Str) (path : Str) : Prop :=
  ∃ entry ∈ ((environ.get "HADCD_MOUNT_ALLOWLIST").getD []).splitOn ':', strip entry ≠ [] ∧
    (resolve (strip entry)).parts <+: (resolve path).parts

def Mountable (resolve : Str → AbsPath) (tempdir : Str) (environ : Dict Str Str) (path : Str) :
    Prop :=
  Staged resolve tempdir path ∨ Listed resolve environ path

def hostPathOf : Json → Option Str
  | .obj v =>
    match Json.get v "host_path" with
    | .str path => some path
    | _ => none
  | _ => none

def sources (args : List (Str × Json)) : List Str :=
  ((Json.get args "volumes").or (.arr [])).entries.filterMap hostPathOf ++
    match Json.get args "output_dir" with
    | .str dir => [dir]
    | _ => []

section Policy

variable (resolve : Str → AbsPath) (tempdir : Str) (environ : Dict Str Str)

theorem isWithin_posixHost (path parent : Str) :
    isWithin (posixHost resolve tempdir environ) path parent = true ↔
      (resolve parent).parts <+: (resolve path).parts := by
  rw [← AbsPath.within_iff]
  rw [isWithin, Bool.or_eq_true, List.isPrefixOf_iff_prefix]
  exact or_congr decide_eq_true_iff Iff.rfl

theorem checkMountAllowed_iff (path : Str) :
    checkMountAllowed (posixHost resolve tempdir environ) path = .ok () ↔
      Mountable resolve tempdir environ path := by
  have hstaged : (asParent (resolve tempdir).str ++ blobStagingPrefix).isPrefixOf
      (resolve path).str = true ↔ Staged resolve tempdir path := by
    rw [List.isPrefixOf_iff_prefix]
    exact AbsPath.asParent_append_prefix_iff _ _ (by decide) (by decide)
  have hlisted : (((((environ.get "HADCD_MOUNT_ALLOWLIST").getD []).splitOn ':').map strip).any
      fun entry => decide (entry ≠ []) && isWithin (posixHost resolve tempdir environ) path entry) =
      true ↔ Listed resolve environ path := by
    simp [Listed, isWithin_posixHost]
  rw [Mountable, ← hstaged, ← hlisted, checkMountAllowed]
  by_cases h1 : (asParent (resolve tempdir).str ++ blobStagingPrefix).isPrefixOf (resolve path).str = true
  · exact iff_of_true (if_pos h1) (Or.inl h1)
  refine (iff_of_eq (congrArg (· = Except.ok ()) (if_neg h1))).trans ?_
  split_ifs with h2
  · exact iff_of_true rfl (Or.inr h2)
  · refine iff_of_false (by simp) ?_
    rintro (h | h)
    · exact h1 h
    · exact h2 h

end Policy

/-! ### Every source is checked -/

section Checks

variable {host : Host}

theorem hostPathOf_eq_some {v : List (Str × Json)} {path : Str}
    (h : Json.get v "host_path" = .str path) : hostPathOf (.obj v) = some path := by
  simp only [hostPathOf, h]

theorem checkVolume_checked {i : ℕ} {volume : Json} {entry : Str × Mount}
    (h : checkVolume host i volume = .ok entry) :
    hostPathOf volume = some entry.1 ∧ checkMountAllowed host entry.1 = .ok () := by
  obtain ⟨v, rfl, hpath, -, -, hok⟩ := checkVolume_eq_ok h
  exact ⟨hostPathOf_eq_some hpath, hok⟩

theorem mem_keys_set {d : Dict Str Mount} {path k : Str} {m : Mount} :
    k ∈ (d.set path m).keys ↔ path = k ∨ k ∈ d.keys := by
  rw [Dict.mem_keys_iff, Dict.mem_keys_iff, Dict.get_set]
  by_cases hk : path = k <;> simp [hk]

theorem addVolumes_checked {i : ℕ} {vs : List Json} {d d' : Dict Str Mount}
    (h : addVolumes host i vs d = .ok d') :
    (∀ path ∈ vs.filterMap hostPathOf, checkMountAllowed host path = .ok ()) ∧
    ∀ k ∈ d'.keys, k ∈ d.keys ∨ checkMountAllowed host k = .ok () := by
  induction vs generalizing i d with
  | nil =>
    cases h
    exact ⟨by simp, fun k hk => Or.inl hk⟩
  | cons v vs ih =>
    obtain ⟨entry, hv, h⟩ := bind_eq_ok h
    obtain ⟨hpath, hok⟩ := checkVolume_checked hv
    obtain ⟨hall, hkeys⟩ := ih h
    constructor
    · intro path hmem
      rw [List.filterMap_cons_some hpath] at hmem
      rcases List.mem_cons.mp hmem with rfl | hmem
      · exact hok
      · exact hall path hmem
    · intro k hk
      rcases hkeys k hk with hin | hchecked
      · rcases mem_keys_set.mp hin with rfl | hin
        · exact Or.inr hok
        · exact Or.inl hin
      · exact Or.inr hchecked

theorem volumesFromList_checked {raw : Json} {d : Dict Str Mount}
    (h : volumesFromList host raw = .ok d) :
    (∀ path ∈ raw.entries.filterMap hostPathOf, checkMountAllowed host path = .ok ()) ∧
    ∀ k ∈ d.keys, checkMountAllowed host k = .ok () := by
  cases raw with
  | arr vs =>
    obtain ⟨hall, hkeys⟩ := addVolumes_checked h
    exact ⟨hall, fun k hk => (hkeys k hk).resolve_left (by simp [Dict.keys, Dict.empty])⟩
  | _ => cases h

theorem volumesDict_checked {args : List (Str × Json)} {d : Dict Str Mount}
    (h : volumesDict host args = .ok d) :
    (∀ path ∈ sources args, checkMountAllowed host path = .ok ()) ∧
    ∀ k ∈ d.keys, checkMountAllowed host k = .ok () := by
  obtain ⟨volumes, hvolumes, hout⟩ := bind_eq_ok h
  obtain ⟨hall, hkeys⟩ := volumesFromList_checked hvolumes
  unfold sources
  cases hdir : Json.get args "output_dir" with
  | null =>
    rw [hdir] at hout
    cases hout
    exact ⟨fun path hp => hall path (by simpa using hp), hkeys⟩
  | str dir =>
    rw [hdir] at hout
    obtain ⟨_, hok, hout⟩ := bind_eq_ok hout
    cases hout
    constructor
    · intro path hp
      rcases List.mem_append.mp hp with hp | hp
      · exact hall path hp
      · cases List.mem_singleton.mp hp
        exact hok
    · intro k hk
      rcases mem_keys_set.mp hk with rfl | hk
      · exact hok
      · exact hkeys k hk
  | _ => rw [hdir] at hout; cases hout

/-! ### Only a disallowed source is refused by the policy -/

theorem requiredStr_ne {value : Json} {text path : Str} :
    requiredStr value text ≠ .error (.notAllowlisted path) := by
  unfold requiredStr
  split
  · split <;> simp
  · simp

theorem checkMode_ne {i : ℕ} {value : Option Json} {path : Str} :
    checkMode i value ≠ .error (.notAllowlisted path) := by
  unfold checkMode
  split
  · simp
  · split <;> simp
  · simp

theorem checkMountAllowed_error {path path' : Str}
    (h : checkMountAllowed host path = .error (.notAllowlisted path')) : path' = path := by
  unfold checkMountAllowed at h
  simp only at h
  split_ifs at h
  cases h
  rfl

theorem checkVolume_refused {i : ℕ} {volume : Json} {path : Str}
    (h : checkVolume host i volume = .error (.notAllowlisted path)) :
    hostPathOf volume = some path ∧ checkMountAllowed host path ≠ .ok () := by
  cases volume with
  | obj v =>
    rcases bind_eq_error h with h | ⟨hostPath, hh, h⟩
    · exact absurd h requiredStr_ne
    rcases bind_eq_error h with h | ⟨containerPath, -, h⟩
    · exact absurd h requiredStr_ne
    rcases bind_eq_error h with h | ⟨mode, -, h⟩
    · exact absurd h checkMode_ne
    rcases bind_eq_error h with h | ⟨_, -, h⟩
    · obtain rfl := checkMountAllowed_error h
      exact ⟨hostPathOf_eq_some (requiredStr_eq_ok hh).1, by rw [h]; simp⟩
    · cases h
  | _ => cases h

theorem addVolumes_refused {i : ℕ} {vs : List Json} {d : Dict Str Mount} {path : Str}
    (h : addVolumes host i vs d = .error (.notAllowlisted path)) :
    path ∈ vs.filterMap hostPathOf ∧ checkMountAllowed host path ≠ .ok () := by
  induction vs generalizing i d with
  | nil => cases h
  | cons v vs ih =>
    rcases bind_eq_error h with h | ⟨entry, -, h⟩
    · obtain ⟨hpath, hno⟩ := checkVolume_refused h
      exact ⟨by rw [List.filterMap_cons_some hpath]; exact List.mem_cons_self .., hno⟩
    · obtain ⟨hmem, hno⟩ := ih h
      obtain ⟨w, hw, hpath⟩ := List.mem_filterMap.mp hmem
      exact ⟨List.mem_filterMap.mpr ⟨w, List.mem_cons_of_mem v hw, hpath⟩, hno⟩

theorem volumesFromList_refused {raw : Json} {path : Str}
    (h : volumesFromList host raw = .error (.notAllowlisted path)) :
    path ∈ raw.entries.filterMap hostPathOf ∧ checkMountAllowed host path ≠ .ok () := by
  cases raw with
  | arr vs => exact addVolumes_refused h
  | _ => cases h

theorem volumesDict_refused {args : List (Str × Json)} {path : Str}
    (h : volumesDict host args = .error (.notAllowlisted path)) :
    path ∈ sources args ∧ checkMountAllowed host path ≠ .ok () := by
  unfold sources
  rcases bind_eq_error h with h | ⟨volumes, -, h⟩
  · obtain ⟨hmem, hno⟩ := volumesFromList_refused h
    exact ⟨List.mem_append_left _ hmem, hno⟩
  · cases hdir : Json.get args "output_dir" with
    | str dir =>
      rw [hdir] at h
      rcases bind_eq_error h with h | ⟨_, -, h⟩
      · obtain rfl := checkMountAllowed_error h
        exact ⟨by simp, by rw [h]; simp⟩
      · cases h
    | _ => rw [hdir] at h; cases h

end Checks

/-! ### The start of the container -/

section Start

variable {host : Host} {py : Python} {args : List (Str × Json)}

theorem mapError_eq_ok {ε ε' α : Type} {f : ε → ε'} {x : Except ε α} {a : α}
    (h : x.mapError f = .ok a) : x = .ok a := by
  cases x with
  | error e => cases h
  | ok b =>
    cases h
    rfl

theorem parseArgs_volumes {request : Request} (h : parseArgs host py args = .ok request) :
    volumesDict host args = .ok request.volumes := by
  obtain ⟨image, -, h⟩ := bind_eq_ok h
  obtain ⟨command, -, h⟩ := bind_eq_ok h
  obtain ⟨environment, -, h⟩ := bind_eq_ok h
  obtain ⟨timeoutSec, -, h⟩ := bind_eq_ok h
  obtain ⟨volumes, hv, h⟩ := bind_eq_ok h
  cases h
  exact mapError_eq_ok hv

theorem checkImage_ne {image : Json} {e : MountError} : checkImage image ≠ .error (.mount e) := by
  unfold checkImage
  split
  · split <;> simp
  · simp

theorem checkCommand_ne {command : Json} {e : MountError} :
    checkCommand command ≠ .error (.mount e) := by
  cases command <;> simp [checkCommand]

theorem checkEnv_ne {env : Json} {e : MountError} : checkEnv py env ≠ .error (.mount e) := by
  unfold checkEnv
  split <;> simp

theorem checkTimeout_ne {value : Option Json} {e : MountError} :
    checkTimeout py value ≠ .error (.mount e) := by
  intro h
  rcases bind_eq_error h with h | ⟨timeout, -, h⟩
  · unfold timeoutValue at h
    split at h
    · cases h
    · split at h <;> cases h
    · split at h <;> cases h
  · split at h <;> cases h

theorem parseArgs_refused {e : MountError} (h : parseArgs host py args = .error (.mount e)) :
    volumesDict host args = .error e := by
  rcases bind_eq_error h with h | ⟨image, -, h⟩
  · exact absurd h checkImage_ne
  rcases bind_eq_error h with h | ⟨command, -, h⟩
  · exact absurd h checkCommand_ne
  rcases bind_eq_error h with h | ⟨environment, -, h⟩
  · exact absurd h checkEnv_ne
  rcases bind_eq_error h with h | ⟨timeoutSec, -, h⟩
  · exact absurd h checkTimeout_ne
  rcases bind_eq_error h with h | ⟨volumes, -, h⟩
  · cases hv : volumesDict host args with
    | error e' =>
      rw [hv] at h
      cases h
      rfl
    | ok d =>
      rw [hv] at h
      cases h
  · cases h

variable {daemon : Daemon} {environ : Dict Str Str}

theorem container_calls :
    (container host py daemon environ args).1 = [] ∨
      ∃ request, parseArgs host py args = .ok request ∧
        ∀ kwargs, DockerCall.run kwargs ∈ (container host py daemon environ args).1 →
          kwargs.volumes = volumesOrNone request.volumes := by
  unfold container
  cases daemon.sdkInstalled with
  | false => exact Or.inl rfl
  | true =>
    simp only [if_true]
    cases hp : parseArgs host py args with
    | error e => exact Or.inl rfl
    | ok request =>
      refine Or.inr ⟨request, rfl, ?_⟩
      intro kwargs hmem
      simp only at hmem
      split at hmem
      · split at hmem
        · simp at hmem
        · simp only [List.mem_cons, DockerCall.run.injEq, List.not_mem_nil, or_false,
            reduceCtorEq, false_or] at hmem
          rw [hmem]
          rfl
      · simp at hmem

theorem container_refused {e : MountError}
    (h : (container host py daemon environ args).2 = some (.mount e)) :
    volumesDict host args = .error e := by
  unfold container at h
  split at h
  · split at h
    · rename_i e' hp
      cases h
      exact parseArgs_refused hp
    · split at h
      · split at h <;> cases h
      · cases h
  · cases h

end Start

/-- What the local mount policy promises of a payload. -/
structure MountPolicy (resolve : Str → AbsPath) (tempdir : Str) (environ : Dict Str Str)
    (args : List (Str × Json)) (r : List DockerCall × Option ContainerError) : Prop where
  sound : ∀ kwargs, DockerCall.run kwargs ∈ r.1 → ∀ d, kwargs.volumes = some d →
    ∀ path ∈ d.keys, Mountable resolve tempdir environ path
  complete : (∀ path ∈ sources args, Mountable resolve tempdir environ path) →
    ∀ path, r.2 ≠ some (.mount (.notAllowlisted path))
  guarded : (∃ path ∈ sources args, ¬ Mountable resolve tempdir environ path) → r.1 = []

/-- The bind-mount policy is sound and complete for every payload and allowlist. -/
theorem container_mountPolicy (resolve : Str → AbsPath) (tempdir : Str) (environ : Dict Str Str)
    (py : Python) (daemon : Daemon) (args : List (Str × Json)) :
    MountPolicy resolve tempdir environ args
      (container (posixHost resolve tempdir environ) py daemon environ args) := by
  have hiff := checkMountAllowed_iff resolve tempdir environ
  rcases @container_calls (posixHost resolve tempdir environ) py args daemon environ with
    hnil | ⟨request, hp, hrun⟩
  · refine ⟨?_, ?_, fun _ => hnil⟩
    · intro kwargs hmem
      rw [hnil] at hmem
      cases hmem
    · intro hall path hr
      obtain ⟨hmem, hno⟩ := volumesDict_refused (container_refused hr)
      exact hno ((hiff path).mpr (hall path hmem))
  · obtain ⟨hsources, hkeys⟩ := volumesDict_checked (parseArgs_volumes hp)
    refine ⟨?_, ?_, ?_⟩
    · intro kwargs hmem d hd path hpath
      rw [hrun kwargs hmem, volumesOrNone] at hd
      split_ifs at hd with hempty
      cases hd
      exact (hiff path).mp (hkeys path hpath)
    · intro _ path hr
      have hv := container_refused hr
      rw [parseArgs_volumes hp] at hv
      cases hv
    · rintro ⟨path, hmem, hno⟩
      exact absurd ((hiff path).mp (hsources path hmem)) hno

end HadcdAgent.Container
