import HadcdAgent.Container.Security

/-!
# The network of a container task

The `network` argument that `_build_security_kwargs` (`hadcd_workloads/container.py`)
hands to `run()`, and what Docker makes of it.
-/

namespace HadcdAgent.Container

open Lib

/-! ### What Docker makes of a network -/

inductive NetworkKind where
  | defaultBridge
  | host
  | null
  | userDefined
  deriving DecidableEq

/-- `kindOf` is the kind of the network that a name or an ID, whole or cut short,
stands for once it has been looked up or created. IDs are hexadecimal. -/
structure DockerNetworks where
  client : NetworkClient
  kindOf : Str → NetworkKind
  created : ∀ name, client.get name = .notFound → kindOf name = .userDefined
  predefined : ∀ name, kindOf name ≠ .userDefined →
    name ∈ (["bridge", "host", "none"] : List Str) ∨ ∀ c ∈ name, c.isDigit ∨ c ∈ "abcdef".toList

/-- Where a container lands; Docker refuses to attach one to the host network by
its ID. -/
inductive Landing where
  | defaultBridge
  | host
  | none
  | container
  | userDefined
  | refused
  deriving DecidableEq

/-- `run(network=name)`. -/
def landing (d : DockerNetworks) (name : Str) : Landing :=
  if name ∈ (["bridge", "default"] : List Str) then .defaultBridge
  else if name = "host".toList then .host
  else if name = "none".toList then .none
  else if "container:".toList.isPrefixOf name then .container
  else match d.kindOf name with
    | .defaultBridge => .defaultBridge
    | .host => .refused
    | .null => .none
    | .userDefined => .userDefined

/-- `_ensure_network` has found or created it. -/
def FoundOrCreated (client : NetworkClient) (name : Str) : Prop :=
  client.get name = .ok ∨ client.get name = .notFound ∧
    (client.create name = .ok ∨ client.getAgain name = .ok)

def Isolating (d : DockerNetworks) (name : Str) : Prop :=
  landing d name = .none ∨ landing d name = .userDefined ∧ FoundOrCreated d.client name

structure Isolated (d : DockerNetworks) (isHardened : Bool) (kwargs : SecurityKwargs) : Prop where
  notHost : ∀ name, kwargs.network = some name → landing d name ≠ .host
  hardened : isHardened = true → ∃ name, kwargs.network = some name ∧ Isolating d name

def networkNamed : Json → Option Str
  | .str name => if name = [] then none else some name
  | _ => none

/-- The network that the payload names, if any. -/
def ownNetwork (args : List (Str × Json)) : Option Str :=
  networkNamed (Json.get args "network_mode")

/-- Docker reads it as no network or as a user-defined one. -/
def NamesOwn (d : DockerNetworks) (name : Str) : Prop :=
  name = "none".toList ∨
    name ∉ (["bridge", "default"] : List Str) ∧ ¬ "container:".toList <+: name ∧
      (d.kindOf name = .userDefined ∨ d.kindOf name = .null)

/-! ### What the helper returns -/

theorem foundOrCreated {client : NetworkClient} {name : Str}
    (hname : name ∉ (["bridge", "host", "none"] : List Str))
    (h : ensureNetwork client name = .ok ()) : FoundOrCreated client name := by
  unfold ensureNetwork at h
  rw [if_neg hname] at h
  cases hget : client.get name with
  | ok => exact Or.inl hget
  | notFound =>
    rw [hget] at h
    refine Or.inr ⟨hget, ?_⟩
    cases hcreate : client.create name with
    | ok => exact Or.inl rfl
    | otherError => simp [hcreate] at h
    | _ =>
      refine Or.inr ?_
      by_contra hagain
      simp [hcreate, hagain] at h
  | _ => simp [hget] at h

theorem checkNetwork_eq_ok {client : NetworkClient} {value : Json} {network : Option Str}
    (h : checkNetwork client value = .ok network) :
    network = networkNamed value ∧ ∀ name, network = some name →
      name ≠ "host".toList ∧ ensureNetwork client name = .ok () := by
  by_cases ht : value.truthy = true
  · unfold checkNetwork at h
    rw [if_pos ht] at h
    cases value with
    | str name =>
      have hne : name ≠ [] := by simpa [Json.truthy] using ht
      dsimp only at h
      split_ifs at h with hhost
      cases he : ensureNetwork client name with
      | error e =>
        rw [he] at h
        cases h
      | ok u =>
        rw [he] at h
        cases h
        refine ⟨(if_neg hne).symm, ?_⟩
        intro name' hname
        cases hname
        exact ⟨hhost, he⟩
    | _ => cases h
  · unfold checkNetwork at h
    rw [if_neg ht] at h
    cases h
    refine ⟨?_, fun name hname => by cases hname⟩
    cases value with
    | str name =>
      have hempty : name = [] := by simpa [Json.truthy] using ht
      exact (if_pos hempty).symm
    | _ => rfl

/-- The network that a job gets: its own, or with hardening the default one. -/
theorem network_buildSecurityKwargs {client : NetworkClient} {environ : Dict Str Str}
    {args : List (Str × Json)} {kwargs : SecurityKwargs}
    (h : buildSecurityKwargs client environ args = .ok kwargs) :
    kwargs.network = (if hardened environ args then
        some ((ownNetwork args).getD hardenedDefaultNetwork) else ownNetwork args) ∧
      ∀ name, kwargs.network = some name →
        name ≠ "host".toList ∧ ensureNetwork client name = .ok () := by
  obtain ⟨capDrop, -, h⟩ := bind_eq_ok h
  obtain ⟨securityOpt, -, h⟩ := bind_eq_ok h
  obtain ⟨network, hnetwork, h⟩ := bind_eq_ok h
  obtain ⟨hnamed, hchecked⟩ := checkNetwork_eq_ok hnetwork
  have hown : network = ownNetwork args := hnamed
  by_cases hh : hardened environ args = true
  · rw [if_pos hh] at h ⊢
    cases network with
    | some name =>
      cases h
      rw [← hown]
      exact ⟨rfl, hchecked⟩
    | none =>
      obtain ⟨u, hensure, h⟩ := bind_eq_ok h
      cases h
      rw [← hown]
      refine ⟨rfl, ?_⟩
      intro name hname
      cases hname
      exact ⟨by decide, hensure⟩
  · rw [if_neg hh] at h ⊢
    cases h
    exact ⟨hown, hchecked⟩

/-! ### Isolation -/

theorem landing_ne_host {d : DockerNetworks} {name : Str} (h : name ≠ "host".toList) :
    landing d name ≠ .host := by
  unfold landing
  split_ifs
  · decide
  · decide
  · decide
  · cases d.kindOf name <;> decide

theorem isolating_iff {d : DockerNetworks} {name : Str} (hhost : name ≠ "host".toList)
    (he : ensureNetwork d.client name = .ok ()) : Isolating d name ↔ NamesOwn d name := by
  by_cases hbridge : name ∈ (["bridge", "default"] : List Str)
  · have hl : landing d name = .defaultBridge := if_pos hbridge
    refine iff_of_false ?_ ?_
    · rintro (h | ⟨h, -⟩)
      · rw [hl] at h
        cases h
      · rw [hl] at h
        cases h
    · rintro (rfl | ⟨hno, -⟩)
      · revert hbridge
        decide
      · exact hno hbridge
  by_cases hnone : name = "none".toList
  · have hl : landing d name = .none := by
      rw [landing, if_neg hbridge, if_neg hhost, if_pos hnone]
    exact iff_of_true (Or.inl hl) (Or.inl hnone)
  by_cases hcontainer : "container:".toList <+: name
  · have hl : landing d name = .container := by
      rw [landing, if_neg hbridge, if_neg hhost, if_neg hnone,
        if_pos (List.isPrefixOf_iff_prefix.mpr hcontainer)]
    refine iff_of_false ?_ ?_
    · rintro (h | ⟨h, -⟩)
      · rw [hl] at h
        cases h
      · rw [hl] at h
        cases h
    · rintro (h | ⟨-, hno, -⟩)
      · exact hnone h
      · exact hno hcontainer
  have hbuiltin : name ∉ (["bridge", "host", "none"] : List Str) := by
    intro hin
    simp only [List.mem_cons, List.not_mem_nil, or_false] at hin
    rcases hin with rfl | hin | hin
    · exact hbridge (by decide)
    · exact hhost hin
    · exact hnone hin
  have hfound := foundOrCreated hbuiltin he
  have hl : landing d name = match d.kindOf name with
      | .defaultBridge => .defaultBridge
      | .host => .refused
      | .null => .none
      | .userDefined => .userDefined := by
    rw [landing, if_neg hbridge, if_neg hhost, if_neg hnone,
      if_neg fun hp => hcontainer (List.isPrefixOf_iff_prefix.mp hp)]
  have hown : NamesOwn d name ↔ d.kindOf name = .userDefined ∨ d.kindOf name = .null := by
    constructor
    · rintro (h | ⟨-, -, h⟩)
      · exact absurd h hnone
      · exact h
    · exact fun h => Or.inr ⟨hbridge, hcontainer, h⟩
  rw [hown, Isolating, hl]
  cases d.kindOf name with
  | defaultBridge => simp
  | host => simp
  | null => simp
  | userDefined => simp [hfound]

theorem namesOwn_default (d : DockerNetworks) : NamesOwn d hardenedDefaultNetwork := by
  have hkind : d.kindOf hardenedDefaultNetwork = .userDefined := by
    by_contra hne
    rcases d.predefined _ hne with hin | hhex
    · revert hin
      decide
    · have hh := hhex 'h' (by decide)
      revert hh
      decide
  exact Or.inr ⟨by decide, by decide, Or.inl hkind⟩

/-- For every payload: what the helper returns is isolated exactly when a hardened
job names no network of its own but one that is read as none or as user-defined. -/
theorem isolated_iff_namesOwn {d : DockerNetworks} {environ : Dict Str Str} {args : List (Str × Json)}
    {kwargs : SecurityKwargs} (h : buildSecurityKwargs d.client environ args = .ok kwargs) :
    Isolated d (hardened environ args) kwargs ↔
      (hardened environ args = true → ∀ name, ownNetwork args = some name → NamesOwn d name) := by
  obtain ⟨hnetwork, hchecked⟩ := network_buildSecurityKwargs h
  have hhost : ∀ name, kwargs.network = some name → landing d name ≠ .host :=
    fun name hn => landing_ne_host (hchecked name hn).1
  constructor
  · intro hi hh name hown
    rw [if_pos hh, hown] at hnetwork
    obtain ⟨name', hn', hisolating⟩ := hi.hardened hh
    cases hnetwork.symm.trans hn'
    obtain ⟨hne, he⟩ := hchecked name hnetwork
    exact (isolating_iff hne he).mp hisolating
  · intro hall
    refine ⟨hhost, ?_⟩
    intro hh
    rw [if_pos hh] at hnetwork
    obtain ⟨hne, he⟩ := hchecked _ hnetwork
    refine ⟨_, hnetwork, (isolating_iff hne he).mpr ?_⟩
    cases hown : ownNetwork args with
    | none => exact namesOwn_default d
    | some name => exact hall hh name hown

/-- A Docker host with the predefined networks. -/
def plainNetworks : DockerNetworks where
  client := presentNetworks
  kindOf := fun name =>
    if name = "bridge".toList then .defaultBridge
    else if name = "host".toList then .host
    else if name = "none".toList then .null
    else .userDefined
  created := fun name h => by cases h
  predefined := by
    intro name hne
    refine Or.inl ?_
    by_contra hin
    simp only [List.mem_cons, List.not_mem_nil, or_false, not_or] at hin
    exact hne (by rw [if_neg hin.1, if_neg hin.2.1, if_neg hin.2.2])

def hardenedOn (networkMode : Json) : List (Str × Json) :=
  [("hardened", .bool true), ("network_mode", networkMode)]

theorem isolated_networkNone : ∃ kwargs,
    buildSecurityKwargs plainNetworks.client Dict.empty (hardenedOn (.str "none")) = .ok kwargs ∧
    (Isolated plainNetworks (hardened Dict.empty (hardenedOn (.str "none"))) kwargs ↔
      (hardened Dict.empty (hardenedOn (.str "none")) = true →
        ∀ name, ownNetwork (hardenedOn (.str "none")) = some name → NamesOwn plainNetworks name)) := by
  have hrun : buildSecurityKwargs plainNetworks.client Dict.empty (hardenedOn (.str "none")) =
      .ok ⟨some false, some [.str "ALL"], some [.str "no-new-privileges:true"], some "none".toList⟩ := rfl
  exact ⟨_, hrun, isolated_iff_namesOwn hrun⟩

/-- Docker's shared bridge passes the helper as it is. -/
theorem not_isolated_bridge : ∃ kwargs,
    hardened Dict.empty (hardenedOn (.str "bridge")) = true ∧
    buildSecurityKwargs plainNetworks.client Dict.empty (hardenedOn (.str "bridge")) = .ok kwargs ∧
    ¬ Isolated plainNetworks true kwargs := by
  refine ⟨_, rfl, rfl, ?_⟩
  intro h
  obtain ⟨name, hname, hisolating⟩ := h.hardened rfl
  cases hname
  rcases hisolating with hl | ⟨hl, -⟩
  · exact absurd hl (by decide)
  · exact absurd hl (by decide)

end HadcdAgent.Container
