import HadcdAgent.Rental.Retry
import HadcdAgent.Tailscale

/-!
# What the node listens on, and what it tells

`Agent.run` (`agent/agent.py`) probes Tailscale once, and publishes the ports of the
session containers and of `StorageServer` (`agent/storage_server.py`) on the address it
found. `_start_session` (`agent/rental_session_handler.py`) asks for the address again,
when it activates a session. Between the two the network may have changed.
-/

namespace HadcdAgent.Rental

open Lib Tailscale

/-! ### The source -/

def loopback : Str := "127.0.0.1".toList

/-- `self._tailscale_ip or "127.0.0.1"`. -/
def bindHost (st : TailscaleStatus) : Str :=
  match (if st.connected then st.tailscaleIp else none) with
  | some (c :: cs) => c :: cs
  | _ => loopback

/-- `storagePort` is set when the node offers storage. -/
structure Settings where
  comfyuiImage : Str
  ollamaImage : Str
  mediaModelsPath : Str
  storagePort : Option ℕ

/-- A session container that was started, and the call that started it. -/
structure Launch where
  draw : Draw
  kwargs : RunKwargs

structure Activation extends Launch where
  info : List (Str × Json)

/-- `launches` are the calls of the running agent that have still to activate. What the
machine has been and the addresses listened on are kept as a record. -/
structure Node where
  machine : Machine
  seen : List Machine
  agent : Option Handler
  launches : List Launch
  bound : List (Str × ℕ)
  activations : List Activation

inductive Change where
  | network (m : Machine)
  | start (settings : Settings) (binds : Bool)    -- whether the server can bind
  | stop
  | launch (sessionId : Str) (gpu : Bool) (d : Draw)
  | activate (i : ℕ) (io : StartIo)

def boot (m : Machine) : Node := ⟨m, [m], none, [], [], []⟩

def handler (settings : Settings) (host : Str) : Handler :=
  ⟨host, settings.comfyuiImage, settings.ollamaImage, settings.mediaModelsPath⟩

def servedAt (settings : Settings) (host : Str) : List (Str × ℕ) :=
  settings.storagePort.toList.map fun port => (host, port)

/-- `Agent.run` up to its loops. -/
def startAgent (n : Node) (settings : Settings) (binds : Bool) : Node :=
  match checkTailscaleStatus n.machine with
  | .error _ => { n with agent := none, launches := [] }
  | .ok st =>
    if settings.storagePort.isSome && !binds then { n with agent := none, launches := [] }
    else
      { n with
        agent := some (handler settings (bindHost st))
        launches := []
        bound := n.bound ++ servedAt settings (bindHost st) }

def published (k : RunKwargs) : Str × ℕ := (k.ports.2.1, k.ports.2.2)

/-- `_start_session` up to its container. -/
def launch (n : Node) (h : Handler) (sessionId : Str) (gpu : Bool) (d : Draw) : Node :=
  if d.stype = "media".toList ∧ h.mediaModelsPath = [] then n
  else
    let k := runKwargs h sessionId gpu d
    { n with launches := n.launches ++ [⟨d, k⟩], bound := n.bound ++ [published k] }

def activate (n : Node) (i : ℕ) (io : StartIo) (l : Launch) : Node :=
  { n with
    launches := n.launches.eraseIdx i
    activations := n.activations ++ [⟨l, connectionInfo (getTailscaleIp io) l.draw⟩] }

def change (n : Node) : Change → Option Node
  | .network m => some { n with machine := m, seen := m :: n.seen }
  | .start settings binds => some (startAgent n settings binds)
  | .stop => some { n with agent := none, launches := [] }
  | .launch sessionId gpu d => n.agent.map fun h => launch n h sessionId gpu d
  | .activate i io => n.launches[i]?.map (activate n i io)

/-! ### Addresses -/

/-- Loopback, or an address that one of the machines listed for itself, in `100.` if that
machine listed one there. -/
def Own (seen : List Machine) (host : Str) : Prop :=
  host = loopback ∨ ∃ m ∈ seen, ∃ ips, Finds m ips ∧ Among host ips ∧
    ∀ other, Among other ips → isCgnat other = true → isCgnat host = true

theorem own_bindHost {m : Machine} {seen : List Machine} {st : TailscaleStatus} (hm : m ∈ seen)
    (h : checkTailscaleStatus m = .ok st) : Own seen (bindHost st) := by
  unfold bindHost
  split
  · rename_i c cs hip
    split_ifs at hip
    obtain ⟨-, ips, hfinds, hamong, hcgnat⟩ := checkTailscaleStatus_eq_ok h hip
    exact Or.inr ⟨m, hm, ips, hfinds, hamong, hcgnat⟩
  · exact Or.inl rfl

theorem Own.mono {seen seen' : List Machine} {host : Str} (h : Own seen host)
    (hsub : seen ⊆ seen') : Own seen' host := by
  obtain h | ⟨m, hm, hrest⟩ := h
  · exact Or.inl h
  · exact Or.inr ⟨m, hsub hm, hrest⟩

theorem published_runKwargs (h : Handler) (sessionId : Str) (gpu : Bool) (d : Draw) :
    published (runKwargs h sessionId gpu d) = (h.publishHost, d.port) := by
  unfold runKwargs
  split_ifs <;> rfl

theorem sessionUrl_injective {ip ip' : Str} {port : ℕ} (h : sessionUrl ip port = sessionUrl ip' port) :
    ip = ip' :=
  List.append_cancel_left (List.append_cancel_right (List.append_cancel_right h))

theorem connectionInfo_injective {ip ip' : Str} {d : Draw}
    (h : connectionInfo ip d = connectionInfo ip' d) : ip = ip' := by
  have hhead : ∀ {k : Str} {x y : Str} {xs ys : List (Str × Json)},
      (k, Json.str x) :: xs = (k, Json.str y) :: ys → x = y :=
    fun h => Json.str.inj (Prod.mk.inj (List.cons.inj h).1).2
  unfold connectionInfo at h
  split_ifs at h
  · exact hhead h
  · exact sessionUrl_injective (hhead h)
  · exact sessionUrl_injective (List.append_cancel_right (hhead h))

/-! ### Runs -/

/-- The session can be reached where its activation says that it is. -/
def Activation.Reaches (a : Activation) : Prop :=
  a.info = connectionInfo (published a.kwargs).1 a.draw

structure Exposed (n : Node) : Prop where
  here : n.machine ∈ n.seen
  host : ∀ h, n.agent = some h → Own n.seen h.publishHost
  bound : ∀ b ∈ n.bound, Own n.seen b.1
  launched : ∀ l ∈ n.launches, ∃ h, n.agent = some h ∧ published l.kwargs = (h.publishHost, l.draw.port)
  known : ∀ l ∈ n.launches, published l.kwargs ∈ n.bound
  told : ∀ a ∈ n.activations, published a.kwargs ∈ n.bound ∧
    (published a.kwargs).2 = a.draw.port

theorem exposed_boot (m : Machine) : Exposed (boot m) where
  here := List.mem_cons_self ..
  host _ hh := absurd hh (Option.some_ne_none _).symm
  bound _ hb := absurd hb List.not_mem_nil
  launched _ hl := absurd hl List.not_mem_nil
  known _ hl := absurd hl List.not_mem_nil
  told _ ha := absurd ha List.not_mem_nil

/-- The agent is gone, and its calls with it. -/
theorem Exposed.down {n : Node} (h : Exposed n) : Exposed { n with agent := none, launches := [] } where
  here := h.here
  host _ hh := absurd hh (Option.some_ne_none _).symm
  bound := h.bound
  launched _ hl := absurd hl List.not_mem_nil
  known _ hl := absurd hl List.not_mem_nil
  told := h.told

theorem Exposed.startAgent {n : Node} (h : Exposed n) (settings : Settings) (binds : Bool) :
    Exposed (startAgent n settings binds) := by
  unfold Rental.startAgent
  split
  · exact h.down
  · rename_i st hst
    have hown : Own n.seen (bindHost st) := own_bindHost h.here hst
    split_ifs
    · exact h.down
    · refine ⟨h.here, ?_, ?_, fun _ hl => absurd hl List.not_mem_nil,
        fun _ hl => absurd hl List.not_mem_nil, ?_⟩
      · intro k hk
        obtain rfl := Option.some.inj hk
        exact hown
      · intro b hb
        rcases List.mem_append.mp hb with hb | hb
        · exact h.bound b hb
        · obtain ⟨port, -, rfl⟩ := List.mem_map.mp hb
          exact hown
      · exact fun a ha => ⟨List.mem_append_left _ (h.told a ha).1, (h.told a ha).2⟩

theorem Exposed.launch {n : Node} (h : Exposed n) {k : Handler} (hk : n.agent = some k)
    (sessionId : Str) (gpu : Bool) (d : Draw) : Exposed (launch n k sessionId gpu d) := by
  have hpub := published_runKwargs k sessionId gpu d
  unfold Rental.launch
  split_ifs
  · exact h
  · refine ⟨h.here, h.host, ?_, ?_, ?_, ?_⟩
    · intro b hb
      rcases List.mem_append.mp hb with hb | hb
      · exact h.bound b hb
      · rw [List.mem_singleton.mp hb, hpub]
        exact h.host k hk
    · intro l hl
      rcases List.mem_append.mp hl with hl | hl
      · exact h.launched l hl
      · rw [List.mem_singleton.mp hl]
        exact ⟨k, hk, hpub⟩
    · intro l hl
      rcases List.mem_append.mp hl with hl | hl
      · exact List.mem_append_left _ (h.known l hl)
      · rw [List.mem_singleton.mp hl]
        exact List.mem_append_right _ (List.mem_singleton_self _)
    · exact fun a ha => ⟨List.mem_append_left _ (h.told a ha).1, (h.told a ha).2⟩

theorem Exposed.activate {n : Node} (h : Exposed n) {i : ℕ} {l : Launch} (io : StartIo)
    (hl : n.launches[i]? = some l) : Exposed (activate n i io l) := by
  have hmem : l ∈ n.launches := List.mem_of_getElem? hl
  refine ⟨h.here, h.host, h.bound, fun m hm => h.launched m (List.mem_of_mem_eraseIdx hm),
    fun m hm => h.known m (List.mem_of_mem_eraseIdx hm), fun a ha => ?_⟩
  rcases List.mem_append.mp ha with ha | ha
  · exact h.told a ha
  · rw [List.mem_singleton.mp ha]
    obtain ⟨k, -, hpub⟩ := h.launched l hmem
    exact ⟨h.known l hmem, by rw [hpub]⟩

theorem exposed_change {n m : Node} {c : Change} (h : Exposed n) (hm : change n c = some m) :
    Exposed m := by
  cases c with
  | network net =>
    obtain rfl := Option.some.inj hm
    have hsub : n.seen ⊆ net :: n.seen := List.subset_cons_self _ _
    exact ⟨List.mem_cons_self .., fun k hk => (h.host k hk).mono hsub,
      fun b hb => (h.bound b hb).mono hsub, h.launched, h.known, h.told⟩
  | start settings binds =>
    obtain rfl := Option.some.inj hm
    exact h.startAgent settings binds
  | stop =>
    obtain rfl := Option.some.inj hm
    exact h.down
  | launch sessionId gpu d =>
    obtain ⟨k, hk, rfl⟩ := Option.map_eq_some_iff.mp hm
    exact h.launch hk sessionId gpu d
  | activate i io =>
    obtain ⟨l, hl, rfl⟩ := Option.map_eq_some_iff.mp hm
    exact h.activate io hl

/-- Where a session is activated, Tailscale gives the address that the probe found when
the agent started. -/
def Steady (n : Node) : Change → Prop
  | .activate _ io => ∀ h, n.agent = some h → getTailscaleIp io = h.publishHost
  | _ => True

theorem startAgent_activations (n : Node) (settings : Settings) (binds : Bool) :
    (startAgent n settings binds).activations = n.activations := by
  unfold startAgent
  split
  · rfl
  · split_ifs <;> rfl

theorem launch_activations (n : Node) (h : Handler) (sessionId : Str) (gpu : Bool) (d : Draw) :
    (launch n h sessionId gpu d).activations = n.activations := by
  unfold launch
  split_ifs <;> rfl

theorem reaches_change {n m : Node} {c : Change} (h : Exposed n) (hm : change n c = some m) :
    (∀ a ∈ m.activations, a.Reaches) ↔ (∀ a ∈ n.activations, a.Reaches) ∧ Steady n c := by
  cases c with
  | network net =>
    obtain rfl := Option.some.inj hm
    exact (and_iff_left trivial).symm
  | start settings binds =>
    obtain rfl := Option.some.inj hm
    rw [startAgent_activations]
    exact (and_iff_left trivial).symm
  | stop =>
    obtain rfl := Option.some.inj hm
    exact (and_iff_left trivial).symm
  | launch sessionId gpu d =>
    obtain ⟨k, -, rfl⟩ := Option.map_eq_some_iff.mp hm
    rw [launch_activations]
    exact (and_iff_left trivial).symm
  | activate i io =>
    obtain ⟨l, hl, rfl⟩ := Option.map_eq_some_iff.mp hm
    obtain ⟨k, hk, hpub⟩ := h.launched l (List.mem_of_getElem? hl)
    have hnew : Activation.Reaches ⟨l, connectionInfo (getTailscaleIp io) l.draw⟩ ↔
        Steady n (.activate i io) := by
      rw [Activation.Reaches, hpub]
      constructor
      · intro heq k' hk'
        obtain rfl := Option.some.inj (hk.symm.trans hk')
        exact connectionInfo_injective heq
      · exact fun hsteady => by rw [hsteady k hk]
    rw [← hnew, activate, List.forall_mem_append, List.forall_mem_singleton]

theorem reaches_of_exec {n m : Node} {changes : List Change} (h : Exposed n)
    (hrun : Run.exec change n changes = some m) :
    (∀ a ∈ m.activations, a.Reaches) ↔
      (∀ a ∈ n.activations, a.Reaches) ∧ Run.Along change Steady n changes := by
  induction changes generalizing n with
  | nil =>
    cases hrun
    exact (and_iff_left trivial).symm
  | cons c cs ih =>
    obtain ⟨u, hu, hrun⟩ := Run.exec_cons_eq_some hrun
    have halong : Run.Along change Steady n (c :: cs) ↔
        Steady n c ∧ Run.Along change Steady u cs := by
      rw [Run.along_cons_iff, hu]
      exact and_congr_right fun _ => ⟨fun hall => hall u rfl, fun hu v hv => Option.some.inj hv ▸ hu⟩
    rw [ih (exposed_change h hu) hrun, reaches_change h hu, and_assoc, halong]

/-- In every run of networks, starts and sessions, the node listens on loopback or on an
address that Tailscale has listed for it; each activation is for a port that is listened
on, and names the address of it exactly when Tailscale gives at the activation the
address that it gave at the agent's start. -/
theorem exposed_of_exec {m : Machine} {changes : List Change} {n : Node}
    (hrun : Run.exec change (boot m) changes = some n) :
    (∀ b ∈ n.bound, Own n.seen b.1) ∧
    (∀ a ∈ n.activations, published a.kwargs ∈ n.bound ∧ (published a.kwargs).2 = a.draw.port) ∧
    ((∀ a ∈ n.activations, a.Reaches) ↔ Run.Along change Steady (boot m) changes) := by
  have hexposed : Exposed n :=
    Run.exec_preserves (fun _ _ _ => exposed_change) (exposed_boot m) hrun
  refine ⟨hexposed.bound, hexposed.told, (reaches_of_exec (exposed_boot m) hrun).trans ?_⟩
  exact and_iff_right fun a ha => absurd ha List.not_mem_nil

def offline : Machine := ⟨none, false, [], fun _ => false, fun _ => .fails⟩

def online : Machine :=
  ⟨some "/usr/bin/tailscale".toList, false, [], fun _ => true, fun _ => .exits 0 (.value (.obj
    [("BackendState".toList, .str "Running".toList),
      ("Self".toList, .obj [("TailscaleIPs".toList, .arr [.str "100.64.0.7".toList])])]))⟩

def storing : Settings := ⟨[], [], [], some 8015⟩

/-- The agent starts before Tailscale is up. -/
def lateNetwork : List Change :=
  [.start storing true, .network online,
    .launch "s".toList false ⟨"ssh".toList, none, 52000, "00".toList⟩]

def addressedIo : StartIo :=
  ⟨true, none, some [], true, some [], ⟨none, none, none, none⟩, "c".toList, some "100.64.0.7\n".toList,
    none, true⟩

theorem exposed_of_exec_lateNetwork : ∃ n,
    Run.exec change (boot offline)
      (lateNetwork ++ .activate 0 addressedIo :: [.start storing true]) = some n ∧
    (∀ b ∈ n.bound, Own n.seen b.1) ∧
    n.bound = [(loopback, 8015), (loopback, 52000), ("100.64.0.7".toList, 8015)] ∧
    ¬ ∀ a ∈ n.activations, a.Reaches := by
  have hrun : (Run.exec change (boot offline)
      (lateNetwork ++ .activate 0 addressedIo :: [.start storing true])).any (fun n => decide
        (n.bound = [(loopback, 8015), (loopback, 52000), ("100.64.0.7".toList, 8015)])) = true := by
    decide +kernel
  have hlate : (Run.exec change (boot offline) lateNetwork).any (fun n =>
      n.agent.any fun h => decide (getTailscaleIp addressedIo ≠ h.publishHost)) = true := by
    decide +kernel
  obtain ⟨n, hn, hbound⟩ := (Option.any_eq_true _ _).mp hrun
  obtain ⟨hown, -, hreaches⟩ := exposed_of_exec hn
  refine ⟨n, hn, hown, of_decide_eq_true hbound, fun hall => ?_⟩
  obtain ⟨m, hm, hagent⟩ := (Option.any_eq_true _ _).mp hlate
  obtain ⟨h, hh, hne⟩ := (Option.any_eq_true _ _).mp hagent
  exact of_decide_eq_true hne ((hreaches.mp hall).at hm h hh)

end HadcdAgent.Rental
