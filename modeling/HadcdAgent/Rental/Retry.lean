import HadcdAgent.Lib.DockerRun
import HadcdAgent.Rental.Activation

/-!
# What a failed start leaves

`_start_session` (`agent/rental_session_handler.py`) from its first Docker call to its
return. Every exception ends it, after a line in the log; so what `containers.run` has
created when it raises keeps the name that the next attempt needs.
-/

namespace HadcdAgent.Rental

open Lib Lib.DockerRun

/-! ### The Docker host -/

def DockerHost.names (host : DockerHost) : List Str := host.containers.map SessionContainer.name

def DockerHost.add (host : DockerHost) (c : SessionContainer) (h : c.name ∉ host.names) :
    DockerHost :=
  ⟨c :: host.containers, List.nodup_cons.mpr ⟨h, host.distinct⟩⟩

def startNamed (name : Str) (c : SessionContainer) : SessionContainer :=
  if c.name = name then ⟨c.sessionId, c.name, true, c.named⟩ else c

theorem startNamed_name (name : Str) (c : SessionContainer) : (startNamed name c).name = c.name := by
  unfold startNamed
  split_ifs <;> rfl

theorem names_startNamed (name : Str) (cs : List SessionContainer) :
    (cs.map (startNamed name)).map SessionContainer.name = cs.map SessionContainer.name := by
  rw [List.map_map]
  exact List.map_congr_left fun c _ => startNamed_name name c

def DockerHost.start (host : DockerHost) (name : Str) : DockerHost :=
  ⟨host.containers.map (startNamed name), by rw [names_startNamed]; exact host.distinct⟩

def runningUnder (host : DockerHost) (name : Str) : Option Bool :=
  (host.containers.find? fun c => c.name = name).map SessionContainer.running

theorem runningUnder_eq_none {host : DockerHost} {name : Str} :
    runningUnder host name = none ↔ name ∉ host.names := by
  unfold runningUnder DockerHost.names
  rw [Option.map_eq_none_iff, List.find?_eq_none, List.mem_map]
  simp

theorem runningUnder_of_cons {host : DockerHost} {c : SessionContainer}
    {cs : List SessionContainer} (h : host.containers = c :: cs) :
    runningUnder host c.name = some c.running := by
  rw [runningUnder, h, List.find?_cons_of_pos (by simp), Option.map_some]

/-! ### The source -/

/-- What the calls of one `_start_session` come back with; of `networks` and
`runtimes`, `none` is an exception, and of `tailscaleIp` a command that fails.
`onModelCached` says whether the callback, if there is one, returns. -/
structure StartIo where
  sdkInstalled : Bool
  fromEnv : Option Error
  networks : Option (List Str)
  createsNetwork : Bool
  runtimes : Option (List Str)
  run : RunIo
  containerId : Str
  tailscaleIp : Option Str
  onModelCached : Option Bool
  posts : Bool

structure StartState where
  host : DockerHost
  networks : List Str
  active : Dict Str (List (Str × Json))
  cachedModels : List Str
  posts : List (Str × List (Str × Json))

def ensureNetwork (io : StartIo) (s : StartState) : StartState :=
  match io.networks with
  | some existing =>
    if sessionNetwork ∉ existing ∧ io.createsNetwork = true then
      { s with networks := s.networks ++ [sessionNetwork] }
    else s
  | none => s

def gpuAvailable (io : StartIo) : Bool :=
  match io.runtimes with
  | some runtimes => decide ("nvidia".toList ∈ runtimes)
  | none => false

def getTailscaleIp (io : StartIo) : Str :=
  match io.tailscaleIp with
  | some out => if PyStr.strip out = [] then "127.0.0.1".toList else PyStr.strip out
  | none => "127.0.0.1".toList

theorem runKwargs_name (h : Handler) (sessionId : Str) (gpu : Bool) (d : Draw) :
    (runKwargs h sessionId gpu d).name = containerName sessionId := by
  unfold runKwargs
  split_ifs
  all_goals rfl

/-- The daemon refuses a name that is taken (409). -/
def createContainer (sessionId : Str) (kwargs : RunKwargs)
    (hname : kwargs.name = containerName sessionId) :
    EStateM Error StartState SessionContainer := fun s =>
  if h : kwargs.name ∈ s.host.names then .error .apiError s
  else
    let c : SessionContainer := ⟨sessionId, kwargs.name, false, hname⟩
    .ok c { s with host := s.host.add c h }

def startContainer (c : SessionContainer) (s : StartState) : StartState :=
  { s with host := s.host.start c.name }

/-- `self._on_model_cached(model_name)`. -/
def reportCached (io : StartIo) (d : Draw) (s : StartState) : StartState :=
  if d.stype ≠ "ssh".toList ∧ d.stype ≠ "media".toList ∧ io.onModelCached = some true then
    { s with cachedModels := s.cachedModels ++ [modelName d.model] }
  else s

def register (sessionId : Str) (entry : List (Str × Json)) (s : StartState) : StartState :=
  { s with active := s.active.set sessionId entry }

def postActivate (io : StartIo) (sessionId : Str) (info : List (Str × Json)) (s : StartState) :
    StartState :=
  if io.posts then { s with posts := s.posts ++ [(sessionId, info)] } else s

/-- The `try` of `_start_session`; the answer says whether it has registered the
session. -/
def startBody (h : Handler) (sessionId : Str) (d : Draw) (io : StartIo) :
    EStateM Error StartState Bool := do
  answer io.fromEnv
  modify (ensureNetwork io)
  if d.stype = "media".toList ∧ h.mediaModelsPath = [] then
    pure false
  else do
    let _ ← run io.run
      (createContainer sessionId (runKwargs h sessionId (gpuAvailable io) d)
        (runKwargs_name h sessionId (gpuAvailable io) d)) startContainer
    modify (reportCached io d)
    modify (register sessionId (activeEntry io.containerId d))
    modify (postActivate io sessionId (connectionInfo (getTailscaleIp io) d))
    pure true

def startSession (h : Handler) (sessionId : Str) (d : Draw) (io : StartIo) (s : StartState) :
    Bool × StartState :=
  if io.sdkInstalled then
    match startBody h sessionId d io s with
    | .ok registered t => (registered, t)
    | .error _ t => (false, t)
  else (false, s)

/-! ### Another attempt -/

def NameTaken (sessionId : Str) (s : StartState) : Prop := containerName sessionId ∈ s.host.names

/-- Unless it has registered the session, the call leaves no container of the name that
was not there before, and the name is not what refuses the next attempt. -/
structure CanRetry (sessionId : Str) (s : StartState) (r : Bool × StartState) : Prop where
  clean : r.1 = false → ∀ c ∈ r.2.host.containers, c.name = containerName sessionId →
    c ∈ s.host.containers
  admitted : r.1 = false → ¬ NameTaken sessionId s → ¬ NameTaken sessionId r.2

structure Launches (h : Handler) (d : Draw) (io : StartIo) : Prop where
  sdkInstalled : io.sdkInstalled = true
  fromEnv : io.fromEnv = none
  served : ¬ (d.stype = "media".toList ∧ h.mediaModelsPath = [])

/-- A container that it creates, Docker starts. -/
def StartsCreated (h : Handler) (sessionId : Str) (d : Draw) (io : StartIo) (s : StartState) :
    Prop :=
  Launches h d io → ¬ NameTaken sessionId s → io.run.Creates → io.run.start = none

section Start

variable {h : Handler} {sessionId : Str} {d : Draw} {io : StartIo} {s : StartState}

theorem ensureNetwork_host (io : StartIo) (s : StartState) : (ensureNetwork io s).host = s.host := by
  unfold ensureNetwork
  split
  · split_ifs <;> rfl
  · rfl

theorem ensureNetwork_active (io : StartIo) (s : StartState) :
    (ensureNetwork io s).active = s.active := by
  unfold ensureNetwork
  split
  · split_ifs <;> rfl
  · rfl

def finish (sessionId : Str) (d : Draw) (io : StartIo) (s : StartState) : StartState :=
  postActivate io sessionId (connectionInfo (getTailscaleIp io) d)
    (register sessionId (activeEntry io.containerId d) (reportCached io d s))

theorem finish_host (sessionId : Str) (d : Draw) (io : StartIo) (s : StartState) :
    (finish sessionId d io s).host = s.host := by
  unfold finish postActivate register reportCached
  split_ifs <;> rfl

theorem startSession_of_not_launches (hl : ¬ Launches h d io) :
    ∃ t, startSession h sessionId d io s = (false, t) ∧ t.host = s.host ∧ t.active = s.active := by
  unfold startSession
  by_cases hsdk : io.sdkInstalled = true
  · rw [if_pos hsdk]
    cases henv : io.fromEnv with
    | some e =>
      refine ⟨s, ?_, rfl, rfl⟩
      rw [startBody, bind_of_error (answer_of_some henv)]
    | none =>
      have hserved : d.stype = "media".toList ∧ h.mediaModelsPath = [] := by
        by_contra hno
        exact hl ⟨hsdk, henv, hno⟩
      refine ⟨ensureNetwork io s, ?_, ensureNetwork_host io s, ensureNetwork_active io s⟩
      rw [startBody, bind_of_ok (answer_of_none henv), bind_modify,
        if_pos hserved]
      rfl
  · exact ⟨s, if_neg hsdk, rfl, rfl⟩

theorem startBody_of_launches (hl : Launches h d io) :
    startBody h sessionId d io s =
      (do
        let _ ← run io.run
          (createContainer sessionId (runKwargs h sessionId (gpuAvailable io) d)
            (runKwargs_name h sessionId (gpuAvailable io) d)) startContainer
        modify (finish sessionId d io)
        pure true : EStateM Error StartState Bool) (ensureNetwork io s) := by
  rw [startBody, bind_of_ok (answer_of_none hl.fromEnv), bind_modify,
    if_neg hl.served]
  rfl

theorem createContainer_of_taken {kwargs : RunKwargs}
    (hname : kwargs.name = containerName sessionId) (ht : NameTaken sessionId s) :
    createContainer sessionId kwargs hname s = .error .apiError s := by
  rw [NameTaken, ← hname] at ht
  exact dif_pos ht

theorem createContainer_of_not_taken {kwargs : RunKwargs}
    (hname : kwargs.name = containerName sessionId) (ht : ¬ NameTaken sessionId s) :
    ∃ c u, createContainer sessionId kwargs hname s = .ok c u ∧ c.name = containerName sessionId ∧
      c.running = false ∧ u.host.containers = c :: s.host.containers := by
  rw [NameTaken, ← hname] at ht
  exact ⟨_, _, dif_neg ht, hname, rfl, rfl⟩

theorem nameTaken_ensureNetwork :
    NameTaken sessionId (ensureNetwork io s) ↔ NameTaken sessionId s := by
  rw [NameTaken, NameTaken, ensureNetwork_host]

theorem startSession_of_refused (hl : Launches h d io)
    (hr : NameTaken sessionId s ∨ ¬ io.run.Creates) :
    startSession h sessionId d io s = (false, ensureNetwork io s) := by
  have hrun : ∃ e, run io.run
      (createContainer sessionId (runKwargs h sessionId (gpuAvailable io) d)
        (runKwargs_name h sessionId (gpuAvailable io) d)) startContainer (ensureNetwork io s) =
      .error e (ensureNetwork io s) := by
    rcases hr with ht | hc
    · exact run_of_refused (by decide) (createContainer_of_taken _ (nameTaken_ensureNetwork.mpr ht))
    · exact run_of_not_creates hc
  obtain ⟨e, he⟩ := hrun
  rw [startSession, if_pos hl.sdkInstalled, startBody_of_launches hl, bind_of_error he]

theorem startSession_of_starts (hl : Launches h d io) (ht : ¬ NameTaken sessionId s)
    (hc : io.run.Creates) (hs : io.run.start = none) :
    (startSession h sessionId d io s).1 = true ∧
    runningUnder (startSession h sessionId d io s).2.host (containerName sessionId) = some true := by
  obtain ⟨c, u, hcreate, hname, -, hhost⟩ := createContainer_of_not_taken
    (runKwargs_name h sessionId (gpuAvailable io) d) (nameTaken_ensureNetwork.not.mpr ht)
  rw [startSession, if_pos hl.sdkInstalled, startBody_of_launches hl,
    bind_of_ok (run_of_starts hc hcreate hs)]
  refine ⟨rfl, ?_⟩
  change runningUnder (finish sessionId d io (startContainer c u)).host _ = _
  have hstarted : (u.host.start c.name).containers = startNamed c.name c ::
      (ensureNetwork io s).host.containers.map (startNamed c.name) := by
    change u.host.containers.map (startNamed c.name) = _
    rw [hhost, List.map_cons]
  have hrunning : (startNamed c.name c).running = true := by rw [startNamed, if_pos rfl]
  rw [finish_host, startContainer, ← hname, ← hrunning, ← runningUnder_of_cons hstarted,
    startNamed_name]

/-- The container that did not start keeps its name. -/
theorem startSession_of_startFails {e : Error} (hl : Launches h d io)
    (ht : ¬ NameTaken sessionId s) (hc : io.run.Creates) (hs : io.run.start = some e) :
    (startSession h sessionId d io s).1 = false ∧
    runningUnder (startSession h sessionId d io s).2.host (containerName sessionId) =
      some false := by
  obtain ⟨c, u, hcreate, hname, hrunning, hhost⟩ := createContainer_of_not_taken
    (runKwargs_name h sessionId (gpuAvailable io) d) (nameTaken_ensureNetwork.not.mpr ht)
  rw [startSession, if_pos hl.sdkInstalled, startBody_of_launches hl,
    bind_of_error (run_of_startFails hc hcreate hs)]
  refine ⟨rfl, ?_⟩
  rw [← hname, ← hrunning]
  exact runningUnder_of_cons hhost

theorem nameTaken_of_running {t : StartState} {running : Bool}
    (ht : runningUnder t.host (containerName sessionId) = some running) : NameTaken sessionId t := by
  by_contra hfree
  rw [runningUnder_eq_none.mpr hfree] at ht
  cases ht

theorem canRetry_of_host {t : StartState} (ht : t.host = s.host) : CanRetry sessionId s (false, t) where
  clean := fun _ c hc _ => ht ▸ hc
  admitted := fun _ hn => by
    rw [NameTaken, ht]
    exact hn

/-- A start attempt can be made again exactly when Docker starts what it created. -/
theorem canRetry_iff (h : Handler) (sessionId : Str) (d : Draw) (io : StartIo) (s : StartState) :
    CanRetry sessionId s (startSession h sessionId d io s) ↔ StartsCreated h sessionId d io s := by
  constructor
  · intro hretry hl ht hc
    cases hs : io.run.start with
    | none => rfl
    | some e =>
      obtain ⟨hunregistered, hstopped⟩ := startSession_of_startFails hl ht hc hs
      exact absurd (nameTaken_of_running hstopped) (hretry.admitted hunregistered ht)
  · intro hstarts
    by_cases hl : Launches h d io
    · by_cases hr : NameTaken sessionId s ∨ ¬ io.run.Creates
      · rw [startSession_of_refused hl hr]
        exact canRetry_of_host (ensureNetwork_host io s)
      · push Not at hr
        have hregistered := (startSession_of_starts hl hr.1 hr.2 (hstarts hl hr.1 hr.2)).1
        refine ⟨?_, ?_⟩
        · intro hno
          rw [hregistered] at hno
          cases hno
        · intro hno
          rw [hregistered] at hno
          cases hno
    · obtain ⟨t, heq, hhost, -⟩ : ∃ t, startSession h sessionId d io s = (false, t) ∧
          t.host = s.host ∧ t.active = s.active := startSession_of_not_launches hl
      rw [heq]
      exact canRetry_of_host hhost

end Start

/-- Docker creates the container and cannot publish its port. -/
def portTaken : StartIo :=
  ⟨true, none, some [sessionNetwork], true, some ["nvidia".toList],
    ⟨none, none, none, some .apiError⟩, "5d1f0c9ab2e4".toList, none, none, true⟩

def emptyHost : StartState := ⟨⟨[], List.nodup_nil⟩, [sessionNetwork], .empty, [], []⟩

theorem not_canRetry_portTaken : ¬ CanRetry "3f2a9c71".toList emptyHost
    (startSession plainHandler "3f2a9c71".toList
      ⟨"ssh".toList, none, 52000, []⟩ portTaken emptyHost) := by
  intro h
  exact h.admitted (by decide) (by unfold NameTaken; decide) (by unfold NameTaken; decide)

/-! ### The heartbeats that follow -/

/-- `handle_sessions` on the session's entry while that is `starting`. -/
def handleStarting (h : Handler) (sessionId : Str) (s : StartState) (attempt : Draw × StartIo) :
    StartState :=
  if s.active.get sessionId = none then (startSession h sessionId attempt.1 attempt.2 s).2 else s

structure Stuck (sessionId : Str) (s : StartState) : Prop where
  taken : NameTaken sessionId s
  inactive : s.active.get sessionId = none

theorem startSession_of_taken (h : Handler) {sessionId : Str} (d : Draw) (io : StartIo)
    {s : StartState} (ht : NameTaken sessionId s) :
    ∃ t, startSession h sessionId d io s = (false, t) ∧ t.host = s.host ∧ t.active = s.active := by
  by_cases hl : Launches h d io
  · exact ⟨ensureNetwork io s, startSession_of_refused hl (Or.inl ht), ensureNetwork_host io s,
      ensureNetwork_active io s⟩
  · exact startSession_of_not_launches hl

theorem stuck_handleStarting {h : Handler} {sessionId : Str} {s : StartState}
    (hs : Stuck sessionId s) (attempt : Draw × StartIo) :
    Stuck sessionId (handleStarting h sessionId s attempt) := by
  obtain ⟨t, heq, hhost, hactive⟩ := startSession_of_taken h attempt.1 attempt.2 hs.taken
  rw [handleStarting, if_pos hs.inactive, heq]
  refine ⟨?_, ?_⟩
  · rw [NameTaken, hhost]
    exact hs.taken
  · rw [hactive]
    exact hs.inactive

/-- However often the dispatcher lists the session again, it is not started while the
container is there. -/
theorem stuck_attempts {h : Handler} {sessionId : Str} {s : StartState} (hs : Stuck sessionId s)
    (attempts : List (Draw × StartIo)) :
    Stuck sessionId (attempts.foldl (handleStarting h sessionId) s) := by
  induction attempts generalizing s with
  | nil => exact hs
  | cons a as ih => exact ih (stuck_handleStarting hs a)

/-! ### The start task among the session's tasks -/

def outcomeOf (io : RunIo) : CreateOutcome :=
  if io.Creates then (if io.start = none then .ok else .startFails) else .createFails

/-- The session's container is the one that bears its name. -/
def Represents (s : StartState) (sessionId : Str) (session : Session) : Prop :=
  session.container.map Container.running = runningUnder s.host (containerName sessionId)

section Simulation

variable {session : Session} {i : ℕ}

theorem exec_start (hi : session.starts[i]? = some .launched) {outcome : CreateOutcome}
    (container : Option Container) (phase : StartPhase) {next : StartPhase}
    (hcreate : ∀ starts, starts[i]? = some .creating →
      create { session with starts := starts } i outcome =
        some { session with starts := starts.set i phase, container := container })
    (hresume : ∀ starts : List StartPhase, starts[i]? = some phase →
      (advance starts i .created .locating).or (advance starts i .refused .done) =
        some (starts.set i next)) :
    Run.exec step session [.begin i true, .create i outcome, .resume i] =
      some { session with starts := session.starts.set i next, container := container } := by
  have hlt : i < session.starts.length := (List.getElem?_eq_some_iff.mp hi).1
  have h1 : (session.starts.set i .creating)[i]? = some .creating := by
    rw [List.getElem?_set_self hlt]
  have h2 : (session.starts.set i phase)[i]? = some phase := by
    rw [List.getElem?_set_self hlt]
  simp only [Run.exec, step, if_true, advance_of_getElem? hi, Option.map_some, Option.bind_some,
    hcreate _ h1, List.set_set]
  rw [hresume _ h2, List.set_set]
  rfl

theorem resume_refused (starts : List StartPhase) (h : starts[i]? = some .refused) :
    (advance starts i .created .locating).or (advance starts i .refused .done) =
      some (starts.set i .done) := by
  have hno : advance starts i .created .locating = none := by
    refine if_neg ?_
    rw [h]
    decide
  rw [hno, Option.none_or]
  exact advance_of_getElem? h .done

theorem resume_created (starts : List StartPhase) (h : starts[i]? = some .created) :
    (advance starts i .created .locating).or (advance starts i .refused .done) =
      some (starts.set i .locating) := by
  rw [advance_of_getElem? h .locating, Option.some_or]

theorem outcomeOf_of_not_creates {io : RunIo} (h : ¬ io.Creates) : outcomeOf io = .createFails :=
  if_neg h

/-- A start call does to the session's container what its task does among the tasks of
`Session`. -/
theorem exec_startSession {h : Handler} {sessionId : Str} {d : Draw} {io : StartIo} {s : StartState}
    (hl : Launches h d io) (hr : Represents s sessionId session)
    (hi : session.starts[i]? = some .launched) :
    ∃ t, Run.exec step session [.begin i true, .create i (outcomeOf io.run), .resume i] = some t ∧
      Represents (startSession h sessionId d io s).2 sessionId t ∧
      t.starts = session.starts.set i
        (if (startSession h sessionId d io s).1 then .locating else .done) := by
  by_cases hr' : NameTaken sessionId s ∨ ¬ io.run.Creates
  · rw [startSession_of_refused hl hr']
    refine ⟨_, exec_start hi session.container .refused ?_ resume_refused, ?_, rfl⟩
    · intro starts hstarts
      have hrefused : create { session with starts := starts } i (outcomeOf io.run) =
          (advance starts i .creating .refused).map fun starts =>
            { session with starts := starts } := by
        rcases hr' with ht | hc
        · cases hcontainer : session.container with
          | none =>
            rw [Represents, hcontainer, Option.map_none] at hr
            exact absurd ht (runningUnder_eq_none.mp hr.symm)
          | some c => simp only [create]
        · rw [outcomeOf_of_not_creates hc]
          cases session.container <;> simp only [create]
      rw [hrefused, advance_of_getElem? hstarts, Option.map_some]
    · rw [Represents, ensureNetwork_host]
      exact hr
  · push Not at hr'
    have hnone : session.container = none := by
      have h0 := runningUnder_eq_none.mpr hr'.1
      rw [← hr] at h0
      exact Option.map_eq_none_iff.mp h0
    cases hs : io.run.start with
    | none =>
      obtain ⟨hregistered, hrunning⟩ := startSession_of_starts hl hr'.1 hr'.2 hs
      have houtcome : outcomeOf io.run = .ok := by rw [outcomeOf, if_pos hr'.2, if_pos hs]
      rw [hregistered, houtcome]
      refine ⟨_, exec_start hi (some ⟨some i, true⟩) .created ?_ resume_created, hrunning.symm, rfl⟩
      intro starts hstarts
      simp only [create, hnone, advance_of_getElem? hstarts, Option.map_some]
    | some e =>
      obtain ⟨hunregistered, hstopped⟩ := startSession_of_startFails hl hr'.1 hr'.2 hs
      have houtcome : outcomeOf io.run = .startFails := by
        rw [outcomeOf, if_pos hr'.2, if_neg (by rw [hs]; simp)]
      rw [hunregistered, houtcome]
      refine ⟨_, exec_start hi (some ⟨some i, false⟩) .refused ?_ resume_refused, hstopped.symm, rfl⟩
      intro starts hstarts
      simp only [create, hnone, advance_of_getElem? hstarts, Option.map_some]

end Simulation

end HadcdAgent.Rental
