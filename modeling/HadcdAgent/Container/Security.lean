import HadcdAgent.Lib.Json
import HadcdAgent.Lib.Exc

/-!
# The hardened privilege floor

`_env_true`, `_ensure_network` and `_build_security_kwargs`
(`hadcd_workloads/container.py`) on an arbitrary payload, and the option list as
Docker reads it.
-/

namespace HadcdAgent.Container

open Lib Lib.PyStr

/-! ### The source -/

def envTrue (environ : Dict Str Str) (name : Str) : Bool :=
  lower (strip ((environ.get name).getD [])) ∈ (["1", "true", "yes", "on"] : List Str)

def hardenedDefaultNetwork : Str := "hadcd-client-bridge"

inductive BuildError where
  | valueError (text : Str)
  | containerExecutionError (network : Str)
  | docker

/-- How a call of the Docker client ends; `NotFound` is an `APIError`. -/
inductive Reply where
  | ok
  | notFound
  | apiError
  | otherError
  deriving DecidableEq

/-- The answers on networks: to the first lookup, the creation, the lookup after
a failed creation. -/
structure NetworkClient where
  get : Str → Reply
  create : Str → Reply
  getAgain : Str → Reply

def ensureNetwork (client : NetworkClient) (name : Str) : Except BuildError Unit :=
  if name ∈ (["bridge", "host", "none"] : List Str) then .ok ()
  else match client.get name with
    | .ok => .ok ()
    | .notFound =>
      match client.create name with
      | .ok => .ok ()
      | .notFound | .apiError =>
        if client.getAgain name = .ok then .ok () else .error (.containerExecutionError name)
      | .otherError => .error .docker
    | .apiError | .otherError => .error .docker

/-- The keyword arguments that the security profile adds to `run()`. -/
structure SecurityKwargs where
  privileged : Option Bool
  capDrop : Option (List Json)
  securityOpt : Option (List Json)
  network : Option Str

/-- `if value: if not isinstance(value, list): raise …`. -/
def checkList (value : Json) (text : Str) : Except BuildError (Option (List Json)) :=
  if value.truthy then
    match value with
    | .arr xs => .ok (some xs)
    | _ => .error (.valueError text)
  else .ok none

def checkNetwork (client : NetworkClient) (value : Json) : Except BuildError (Option Str) :=
  if value.truthy then
    match value with
    | .str name =>
      if name = "host".toList then .error (.valueError
        "'network_mode' \"host\" is not permitted for dispatched container tasks")
      else (ensureNetwork client name).map fun _ => some name
    | _ => .error (.valueError "'network_mode' must be a string")
  else .ok none

def hardened (environ : Dict Str Str) (args : List (Str × Json)) : Bool :=
  (Json.get args "hardened").truthy || envTrue environ "HADCD_REQUIRE_HARDENED"

def securityOpts (args : List (Str × Json)) : Json :=
  (Json.get args "security_opts").or (Json.get args "security_opt")

/-- `str(o).startswith("no-new-privileges")`; the text of a value that is no
string starts with a digit, a sign, a bracket or a letter other than `n-`. -/
def startsNoNewPrivileges : Json → Bool
  | .str s => ("no-new-privileges" : Str).isPrefixOf s
  | _ => false

/-- The option list of a hardened job. -/
def floorOpts (opts : List Json) : List Json :=
  if opts.any startsNoNewPrivileges then opts else opts ++ [.str "no-new-privileges:true"]

def buildSecurityKwargs (client : NetworkClient) (environ : Dict Str Str)
    (args : List (Str × Json)) : Except BuildError SecurityKwargs := do
  let capDrop ← checkList (Json.get args "cap_drop")
    "'cap_drop' must be a list of capability strings"
  let securityOpt ← checkList (securityOpts args) "'security_opts' must be a list of strings"
  let network ← checkNetwork client (Json.get args "network_mode")
  if hardened environ args then
    match network with
    | some name =>
      pure ⟨some false, some [.str "ALL"], some (floorOpts (securityOpt.getD [])), some name⟩
    | none =>
      ensureNetwork client hardenedDefaultNetwork
      pure ⟨some false, some [.str "ALL"], some (floorOpts (securityOpt.getD [])),
        some hardenedDefaultNetwork⟩
  else pure ⟨none, capDrop, securityOpt, network⟩

/-! ### What Docker makes of the options -/

/-- One entry of `security_opt`: it switches the flag on or off, or is about
something else. -/
def readOption (on : Bool) : Json → Bool
  | .str s =>
    if s ∈ (["no-new-privileges", "no-new-privileges:true", "no-new-privileges=true"] :
      List Str) then true
    else if s ∈ (["no-new-privileges:false", "no-new-privileges=false"] : List Str) then false
    else on
  | _ => on

def noNewPrivileges (opts : List Json) : Bool := opts.foldl readOption false

structure Floor (kwargs : SecurityKwargs) : Prop where
  privileged : kwargs.privileged = some false
  capDrop : kwargs.capDrop = some [.str "ALL"]
  noNewPrivileges : ∃ opts, kwargs.securityOpt = some opts ∧ noNewPrivileges opts = true

def ownOpts (args : List (Str × Json)) : List Json := (securityOpts args).entries

theorem checkList_eq_ok {value : Json} {text : Str} {xs : Option (List Json)}
    (h : checkList value text = .ok xs) :
    xs.getD [] = value.entries := by
  by_cases ht : value.truthy = true
  · simp only [checkList, ht, if_true] at h
    cases value with
    | arr ys =>
      cases h
      rfl
    | _ => cases h
  · simp only [checkList, ht, Bool.false_eq_true, if_false] at h
    cases h
    cases value with
    | arr ys =>
      have hnil : ys = [] := by simpa [Json.truthy] using ht
      exact hnil.symm
    | _ => rfl

theorem buildSecurityKwargs_hardened {client : NetworkClient} {environ : Dict Str Str}
    {args : List (Str × Json)} {kwargs : SecurityKwargs} (hh : hardened environ args = true)
    (h : buildSecurityKwargs client environ args = .ok kwargs) :
    kwargs.privileged = some false ∧ kwargs.capDrop = some [.str "ALL"] ∧
      kwargs.securityOpt = some (floorOpts (ownOpts args)) := by
  obtain ⟨capDrop, -, h⟩ := bind_eq_ok h
  obtain ⟨securityOpt, hopt, h⟩ := bind_eq_ok h
  obtain ⟨network, -, h⟩ := bind_eq_ok h
  have hown : securityOpt.getD [] = ownOpts args := checkList_eq_ok hopt
  rw [if_pos hh, hown] at h
  cases network with
  | some name =>
    cases h
    exact ⟨rfl, rfl, rfl⟩
  | none =>
    obtain ⟨u, -, h⟩ := bind_eq_ok h
    cases h
    exact ⟨rfl, rfl, rfl⟩

theorem noNewPrivileges_append (opts opts' : List Json) :
    noNewPrivileges (opts ++ opts') = opts'.foldl readOption (noNewPrivileges opts) := by
  simp [noNewPrivileges]

/-- The appended entry is read last, so it decides. -/
theorem noNewPrivileges_floorOpts (opts : List Json) :
    noNewPrivileges (floorOpts opts) = true ↔
      (∀ o ∈ opts, startsNoNewPrivileges o = false) ∨ noNewPrivileges opts = true := by
  rw [floorOpts]
  by_cases hany : opts.any startsNoNewPrivileges = true
  · rw [if_pos hany]
    obtain ⟨o, ho, hp⟩ := List.any_eq_true.mp hany
    exact ⟨Or.inr, fun h => h.elim (fun hall => absurd hp (by simp [hall o ho])) id⟩
  · rw [if_neg hany]
    have hlast : noNewPrivileges (opts ++ [.str "no-new-privileges:true"]) = true := by
      rw [noNewPrivileges_append]
      rfl
    refine ⟨fun _ => Or.inl fun o ho => ?_, fun _ => hlast⟩
    by_contra hp
    exact hany (List.any_eq_true.mpr ⟨o, ho, Bool.eq_true_of_not_eq_false hp⟩)

/-- A hardened job gets the floor exactly when its own options either do not
mention the flag or leave it on. -/
theorem floor_iff {client : NetworkClient} {environ : Dict Str Str} {args : List (Str × Json)}
    {kwargs : SecurityKwargs} (hh : hardened environ args = true)
    (h : buildSecurityKwargs client environ args = .ok kwargs) :
    Floor kwargs ↔ (∀ o ∈ ownOpts args, startsNoNewPrivileges o = false) ∨
      noNewPrivileges (ownOpts args) = true := by
  obtain ⟨hpriv, hcap, hopt⟩ := buildSecurityKwargs_hardened hh h
  rw [← noNewPrivileges_floorOpts]
  constructor
  · rintro ⟨-, -, opts, ho, hon⟩
    cases Option.some.inj (ho.symm.trans hopt)
    exact hon
  · exact fun hon => ⟨hpriv, hcap, _, hopt, hon⟩

def presentNetworks : NetworkClient := ⟨fun _ => .ok, fun _ => .ok, fun _ => .ok⟩

def hardenedArgs (opts : List Json) : List (Str × Json) :=
  [("hardened", .bool true), ("security_opts", .arr opts)]

theorem floor_iff_seccomp : ∃ kwargs,
    buildSecurityKwargs presentNetworks Dict.empty (hardenedArgs [.str "seccomp=unconfined"]) =
      .ok kwargs ∧
    (Floor kwargs ↔ (∀ o ∈ ownOpts (hardenedArgs [.str "seccomp=unconfined"]),
      startsNoNewPrivileges o = false) ∨
        noNewPrivileges (ownOpts (hardenedArgs [.str "seccomp=unconfined"])) = true) := by
  have hrun : buildSecurityKwargs presentNetworks Dict.empty
      (hardenedArgs [.str "seccomp=unconfined"]) = .ok ⟨some false, some [.str "ALL"],
        some [.str "seccomp=unconfined", .str "no-new-privileges:true"],
        some hardenedDefaultNetwork⟩ := rfl
  exact ⟨_, hrun, floor_iff rfl hrun⟩

/-- An entry that switches the flag off passes the prefix test. -/
theorem not_floor_optFalse : ∃ kwargs,
    hardened Dict.empty (hardenedArgs [.str "no-new-privileges:false"]) = true ∧
    buildSecurityKwargs presentNetworks Dict.empty
      (hardenedArgs [.str "no-new-privileges:false"]) = .ok kwargs ∧ ¬ Floor kwargs := by
  refine ⟨_, rfl, rfl, ?_⟩
  rintro ⟨-, -, opts, ho, hon⟩
  cases ho
  exact absurd hon (by decide)

end HadcdAgent.Container
