import HadcdAgent.Container.Launch
import HadcdAgent.Lib.DockerRun
import HadcdAgent.Lib.Final

/-!
# The containers that a task leaves

`_container` (`hadcd_workloads/container.py`) from `client.containers.run` to the end.
The `finally` removes what the variable `container` holds, and that is assigned only
when `run` returns.
-/

namespace HadcdAgent.Container

open Lib Lib.DockerRun

/-! ### The host -/

/-- The containers of a host, by a number that is never given again, each with
whether it runs. -/
structure Containers where
  items : List (ℕ × Bool)
  next : ℕ
  fresh : ∀ c ∈ items, c.1 < next

def Containers.ids (cs : Containers) : List ℕ := cs.items.map Prod.fst

def Containers.add (cs : Containers) : Containers where
  items := (cs.next, false) :: cs.items
  next := cs.next + 1
  fresh := by
    intro c hc
    rcases List.mem_cons.mp hc with rfl | hc
    · exact Nat.lt_succ_self _
    · exact Nat.lt_succ_of_lt (cs.fresh c hc)

def Containers.remove (cs : Containers) (n : ℕ) : Containers where
  items := cs.items.filter fun c => c.1 ≠ n
  next := cs.next
  fresh := fun c hc => cs.fresh c (List.mem_of_mem_filter hc)

def switch (n : ℕ) (running : Bool) (c : ℕ × Bool) : ℕ × Bool := if c.1 = n then (n, running) else c

theorem switch_fst (n : ℕ) (running : Bool) (c : ℕ × Bool) : (switch n running c).1 = c.1 := by
  unfold switch
  split_ifs with h
  · exact h.symm
  · rfl

def Containers.setRunning (cs : Containers) (n : ℕ) (running : Bool) : Containers where
  items := cs.items.map (switch n running)
  next := cs.next
  fresh := by
    intro c hc
    obtain ⟨c', hc', rfl⟩ := List.mem_map.mp hc
    rw [switch_fst]
    exact cs.fresh c' hc'

theorem ids_add (cs : Containers) : cs.add.ids = cs.next :: cs.ids := rfl

theorem ids_setRunning (cs : Containers) (n : ℕ) (running : Bool) :
    (cs.setRunning n running).ids = cs.ids := by
  unfold Containers.ids Containers.setRunning
  rw [List.map_map]
  exact List.map_congr_left fun c _ => switch_fst n running c

theorem mem_ids_remove {cs : Containers} {n k : ℕ} :
    k ∈ (cs.remove n).ids ↔ k ∈ cs.ids ∧ k ≠ n := by
  unfold Containers.ids Containers.remove
  simp only [List.mem_map, List.mem_filter, decide_eq_true_eq]
  constructor
  · rintro ⟨c, ⟨hc, hne⟩, rfl⟩
    exact ⟨⟨c, hc, rfl⟩, hne⟩
  · rintro ⟨⟨c, hc, rfl⟩, hne⟩
    exact ⟨c, ⟨hc, hne⟩, rfl⟩

theorem next_not_mem_ids (cs : Containers) : cs.next ∉ cs.ids := by
  intro h
  obtain ⟨c, hc, heq⟩ := List.mem_map.mp h
  have hlt := cs.fresh c hc
  omega

/-! ### The source -/

/-- `malformed` has a `StatusCode` that is no number. -/
inductive WaitReply where
  | exits (code : ℤ)
  | malformed
  | raises

inductive LogsReply where
  | bytes (b : List UInt8)
  | apiError
  | raises

/-- `os.listdir` of the output directory: the names, sorted, each with `os.path.isfile`
of its path. -/
inductive ListReply where
  | names (names : List (Str × Bool))
  | osError
  | raises

/-- What the calls of one task come back with, after the checks. `decode` is
`bytes.decode("utf-8", errors="replace")`. -/
structure TaskIo where
  run : RunIo
  wait : WaitReply
  killWorks : Bool
  stdout : LogsReply
  stderr : LogsReply
  decode : List UInt8 → Str
  outputs : ListReply
  durationSec : PyFloat
  removeWorks : Bool

/-- `launch` is an error from before `run`, `other` any exception that goes through. -/
inductive TaskError where
  | launch (e : ContainerError)
  | imageNotFound (image : Str)
  | startFailed
  | notFinished (timeoutSec : PyFloat)
  | other

structure TaskResult where
  exitCode : ℤ
  stdout : Str
  stderr : Str
  image : Str
  command : Json
  durationSec : PyFloat
  gpuRequest : Bool
  outputFiles : List Str

/-- `container` is the variable of that name. -/
structure RunState where
  host : Containers
  container : Option ℕ

abbrev Act := EStateM TaskError RunState

def setRunning (n : ℕ) (running : Bool) (s : RunState) : RunState :=
  { s with host := s.host.setRunning n running }

def createContainer : EStateM Error RunState ℕ := fun s =>
  .ok s.host.next { s with host := s.host.add }

/-- The `try` around `client.containers.run`. -/
def runContainer (request : Request) (io : TaskIo) : Act ℕ := fun s =>
  match run io.run createContainer (fun n => setRunning n true) s with
  | .ok n t => .ok n { t with container := some n }
  | .error .imageNotFound t => .error (.imageNotFound request.image) t
  | .error .apiError t => .error .startFailed t
  | .error .other t => .error .other t

/-- `container.wait`; an exception from `kill` is logged. -/
def waitContainer (request : Request) (io : TaskIo) (n : ℕ) : Act ℤ :=
  match io.wait with
  | .exits code => do
    modify (setRunning n false)
    pure code
  | .malformed => do
    modify (setRunning n false)
    throw .other
  | .raises => do
    modify fun s => if io.killWorks then setRunning n false s else s
    throw (.notFinished request.timeoutSec)

def maxLogBytes : ℕ := 1 * 1024 * 1024

/-- The two calls of `container.logs`; an `APIError` of either drops both. -/
def captureLogs (io : TaskIo) : Except TaskError (List UInt8 × List UInt8) :=
  match io.stdout with
  | .apiError => .ok ([], [])
  | .raises => .error .other
  | .bytes stdout =>
    match io.stderr with
    | .apiError => .ok ([], [])
    | .raises => .error .other
    | .bytes stderr => .ok (stdout.take maxLogBytes, stderr.take maxLogBytes)

def joinPath (dir name : Str) : Str :=
  if dir.getLast? = some '/' then dir ++ name else dir ++ ['/'] ++ name

def listOutputs (args : List (Str × Json)) (io : TaskIo) : Except TaskError (List Str) :=
  match Json.get args "output_dir" with
  | .str dir =>
    if dir = [] then .ok []
    else match io.outputs with
      | .names names => .ok ((names.filter Prod.snd).map fun n => joinPath dir n.1)
      | .osError => .ok []
      | .raises => .error .other
  | _ => .ok []

def collect (request : Request) (args : List (Str × Json)) (io : TaskIo) (exitCode : ℤ) :
    Except TaskError TaskResult := do
  let logs ← captureLogs io
  let outputFiles ← listOutputs args io
  pure ⟨exitCode, io.decode logs.1, io.decode logs.2, request.image, request.command,
    io.durationSec, request.gpuRequest, outputFiles⟩

/-- The `finally`; an exception from `remove` is logged. -/
def removeContainer (io : TaskIo) : Act Unit :=
  modify fun s =>
    match s.container with
    | some n => if io.removeWorks then { s with host := s.host.remove n } else s
    | none => s

def runTask (request : Request) (args : List (Str × Json)) (io : TaskIo) : Act TaskResult :=
  tryFinally (do
    let n ← runContainer request io
    let exitCode ← waitContainer request io n
    liftExcept (collect request args io exitCode)) (removeContainer io)

/-- `_container`. -/
def containerTask (host : Host) (py : Python) (daemon : Daemon) (environ : Dict Str Str)
    (args : List (Str × Json)) (io : TaskIo) : Act TaskResult :=
  if daemon.sdkInstalled then
    match parseArgs host py args with
    | .error e => throw (.launch e)
    | .ok request =>
      if daemon.reachable then
        match buildSecurityKwargs daemon.networks environ args with
        | .error e => throw (.launch (.security e))
        | .ok _ => runTask request args io
      else throw (.launch .daemonUnreachable)
  else throw (.launch .sdkMissing)

/-! ### What is left -/

def LeavesNothing (before after : Containers) : Prop := ∀ n ∈ after.ids, n ∈ before.ids

/-- The call gets to `client.containers.run`. -/
structure Launches (host : Host) (py : Python) (daemon : Daemon) (environ : Dict Str Str)
    (args : List (Str × Json)) : Prop where
  sdkInstalled : daemon.sdkInstalled = true
  request : ∃ request, parseArgs host py args = .ok request
  reachable : daemon.reachable = true
  security : ∃ kwargs, buildSecurityKwargs daemon.networks environ args = .ok kwargs

section Task

variable {request : Request} {args : List (Str × Json)} {io : TaskIo} {s : RunState}

theorem runContainer_of_not_creates (h : ¬ io.run.Creates) :
    ∃ e, runContainer request io s = .error e s := by
  obtain ⟨e, hrun⟩ : ∃ e, run io.run createContainer (fun n => setRunning n true) s = .error e s :=
    run_of_not_creates h
  unfold runContainer
  rw [hrun]
  cases e <;> exact ⟨_, rfl⟩

theorem runContainer_of_starts (h : io.run.Creates) (hs : io.run.start = none) :
    runContainer request io s = .ok s.host.next
      { setRunning s.host.next true { s with host := s.host.add } with
        container := some s.host.next } := by
  have hrun : run io.run createContainer (fun n => setRunning n true) s =
      .ok s.host.next (setRunning s.host.next true { s with host := s.host.add }) :=
    run_of_starts h rfl hs
  unfold runContainer
  rw [hrun]

theorem runContainer_of_startFails (h : io.run.Creates) {e : Error} (hs : io.run.start = some e) :
    ∃ e, runContainer request io s = .error e { s with host := s.host.add } := by
  have hrun : run io.run createContainer (fun n => setRunning n true) s =
      .error e { s with host := s.host.add } := run_of_startFails h rfl hs
  unfold runContainer
  rw [hrun]
  cases e <;> exact ⟨_, rfl⟩

/-- Which containers there are, and the one that the `finally` will remove. -/
def RunState.view (s : RunState) : List ℕ × Option ℕ := (s.host.ids, s.container)

theorem view_setRunning (n : ℕ) (running : Bool) (s : RunState) :
    (setRunning n running s).view = s.view := by
  unfold RunState.view setRunning
  rw [ids_setRunning]

theorem view_waitContainer (n : ℕ) : (final (waitContainer request io n) s).view = s.view := by
  unfold waitContainer
  cases io.wait with
  | raises =>
    change (if io.killWorks then setRunning n false s else s).view = s.view
    split_ifs
    · exact view_setRunning n false s
    · rfl
  | _ => exact view_setRunning n false s

theorem view_afterRun (n : ℕ) :
    (final (do
      let exitCode ← waitContainer request io n
      liftExcept (collect request args io exitCode) : Act TaskResult) s).view = s.view := by
  rw [final_bind_congr RunState.view, view_waitContainer]
  intro exitCode t
  rw [final_liftExcept]

theorem mem_ids_removeContainer (hr : io.removeWorks = true) {k : ℕ} :
    k ∈ (final (removeContainer io) s).host.ids ↔ k ∈ s.view.1 ∧ s.view.2 ≠ some k := by
  change k ∈ (match s.container with
    | some n => if io.removeWorks then { s with host := s.host.remove n } else s
    | none => s).host.ids ↔ k ∈ s.host.ids ∧ s.container ≠ some k
  cases hc : s.container with
  | none => simp
  | some n =>
    simp only [hr, if_true]
    rw [mem_ids_remove]
    simp [eq_comm]

theorem mem_ids_runTask (hr : io.removeWorks = true) (ids : List ℕ) (container : Option ℕ)
    (h : (final (do
      let n ← runContainer request io
      let exitCode ← waitContainer request io n
      liftExcept (collect request args io exitCode) : Act TaskResult) s).view =
        (ids, container)) {k : ℕ} :
    k ∈ (final (runTask request args io) s).host.ids ↔ k ∈ ids ∧ container ≠ some k := by
  rw [runTask, final_tryFinally, mem_ids_removeContainer hr, h]

variable {cs : Containers}

theorem mem_ids_of_not_creates (hr : io.removeWorks = true) (h : ¬ io.run.Creates) {k : ℕ} :
    k ∈ (final (runTask request args io) ⟨cs, none⟩).host.ids ↔ k ∈ cs.ids := by
  obtain ⟨e, he⟩ : ∃ e, runContainer request io ⟨cs, none⟩ = .error e ⟨cs, none⟩ :=
    runContainer_of_not_creates h
  rw [mem_ids_runTask hr cs.ids none ?_]
  · simp
  · rw [final_bind_of_error he]
    rfl

theorem mem_ids_of_starts (hr : io.removeWorks = true) (h : io.run.Creates)
    (hs : io.run.start = none) {k : ℕ} :
    k ∈ (final (runTask request args io) ⟨cs, none⟩).host.ids ↔ k ∈ cs.ids := by
  rw [mem_ids_runTask hr (cs.next :: cs.ids) (some cs.next) ?_]
  · have hfresh := next_not_mem_ids cs
    constructor
    · rintro ⟨hk, hne⟩
      exact (List.mem_cons.mp hk).resolve_left fun heq => hne (congrArg some heq.symm)
    · intro hk
      refine ⟨List.mem_cons_of_mem _ hk, ?_⟩
      intro heq
      cases heq
      exact hfresh hk
  · rw [final_bind_of_ok (runContainer_of_starts h hs), view_afterRun]
    unfold RunState.view setRunning
    rw [ids_setRunning, ids_add]

theorem next_mem_ids_of_startFails (hr : io.removeWorks = true) (h : io.run.Creates) {e : Error}
    (hs : io.run.start = some e) :
    cs.next ∈ (final (runTask request args io) ⟨cs, none⟩).host.ids := by
  obtain ⟨e', he⟩ : ∃ e, runContainer request io ⟨cs, none⟩ = .error e ⟨cs.add, none⟩ :=
    runContainer_of_startFails h hs
  rw [mem_ids_runTask hr (cs.next :: cs.ids) none ?_]
  · exact ⟨List.mem_cons_self .., by simp⟩
  · rw [final_bind_of_error he]
    rfl

end Task

section Handler

variable {host : Host} {py : Python} {daemon : Daemon} {environ : Dict Str Str}
  {args : List (Str × Json)} {io : TaskIo}

theorem containerTask_of_launches (io : TaskIo) (h : Launches host py daemon environ args) :
    ∃ request, parseArgs host py args = .ok request ∧
      containerTask host py daemon environ args io = runTask request args io := by
  obtain ⟨request, hrequest⟩ := h.request
  obtain ⟨kwargs, hkwargs⟩ := h.security
  refine ⟨request, hrequest, ?_⟩
  unfold containerTask
  rw [if_pos h.sdkInstalled, hrequest]
  dsimp only
  rw [if_pos h.reachable, hkwargs]

theorem containerTask_of_not_launches (io : TaskIo) (h : ¬ Launches host py daemon environ args) :
    ∃ e, (container host py daemon environ args).2 = some e ∧
      containerTask host py daemon environ args io = throw (.launch e) := by
  unfold container containerTask
  by_cases hsdk : daemon.sdkInstalled = true
  · rw [if_pos hsdk, if_pos hsdk]
    cases hp : parseArgs host py args with
    | error e => exact ⟨e, rfl, rfl⟩
    | ok request =>
      dsimp only
      by_cases hreach : daemon.reachable = true
      · rw [if_pos hreach, if_pos hreach]
        cases hb : buildSecurityKwargs daemon.networks environ args with
        | error e => exact ⟨.security e, rfl, rfl⟩
        | ok kwargs => exact absurd ⟨hsdk, ⟨request, hp⟩, hreach, kwargs, hb⟩ h
      · rw [if_neg hreach, if_neg hreach]
        exact ⟨.daemonUnreachable, rfl, rfl⟩
  · rw [if_neg hsdk, if_neg hsdk]
    exact ⟨.sdkMissing, rfl, rfl⟩

end Handler

/-- The container that the call creates, Docker starts. -/
def StartsCreated (host : Host) (py : Python) (daemon : Daemon) (environ : Dict Str Str)
    (args : List (Str × Json)) (io : TaskIo) : Prop :=
  Launches host py daemon environ args → io.run.Creates → io.run.start = none

/-- Nothing is left of a task exactly when Docker starts what it created. -/
theorem leavesNothing_iff (host : Host) (py : Python) (daemon : Daemon) (environ : Dict Str Str)
    (args : List (Str × Json)) (io : TaskIo) (cs : Containers) (hr : io.removeWorks = true) :
    LeavesNothing cs (final (containerTask host py daemon environ args io) ⟨cs, none⟩).host ↔
      StartsCreated host py daemon environ args io := by
  by_cases hl : Launches host py daemon environ args
  · obtain ⟨request, -, heq⟩ := containerTask_of_launches io hl
    rw [heq]
    constructor
    · intro hnothing _ hc
      cases hs : io.run.start with
      | none => rfl
      | some e =>
        have hleft : cs.next ∈ cs.ids := hnothing _ (next_mem_ids_of_startFails hr hc hs)
        exact absurd hleft (next_not_mem_ids cs)
    · intro hstarts n hn
      by_cases hc : io.run.Creates
      · exact (mem_ids_of_starts hr hc (hstarts hl hc)).mp hn
      · exact (mem_ids_of_not_creates hr hc).mp hn
  · obtain ⟨e, -, he⟩ := containerTask_of_not_launches io hl
    rw [he]
    exact iff_of_true (fun n hn => hn) fun h => absurd h hl

def noContainers : Containers := ⟨[], 0, fun _ h => by cases h⟩

def plainHost : Host := ⟨id, "/tmp".toList, []⟩

def plainPython : Python := ⟨fun _ => none, fun _ => []⟩

def plainDaemon : Daemon := ⟨true, true, fun _ => .ok, fun _ => .ok, fun _ => .ok⟩

def busybox : List (Str × Json) := [("image".toList, .str "busybox:latest".toList)]

/-- All works, but for what the start raises. -/
def startReply (start : Option Error) : TaskIo where
  run := ⟨none, none, none, start⟩
  wait := .exits 0
  killWorks := true
  stdout := .bytes []
  stderr := .bytes []
  decode := fun _ => []
  outputs := .names []
  durationSec := .fin 1
  removeWorks := true

theorem leavesNothing_busybox : (startReply none).removeWorks = true ∧
    LeavesNothing noContainers (final
      (containerTask plainHost plainPython plainDaemon .empty busybox (startReply none))
      ⟨noContainers, none⟩).host :=
  ⟨rfl, (leavesNothing_iff plainHost plainPython plainDaemon .empty busybox (startReply none)
    noContainers rfl).mpr fun _ _ => rfl⟩

theorem not_leavesNothing_startFails : (startReply (some .apiError)).removeWorks = true ∧
    ¬ LeavesNothing noContainers (final
      (containerTask plainHost plainPython plainDaemon .empty busybox (startReply (some .apiError)))
      ⟨noContainers, none⟩).host := by
  refine ⟨rfl, ?_⟩
  intro h
  exact absurd (h 0 (by decide +kernel)) (by decide)

end HadcdAgent.Container
