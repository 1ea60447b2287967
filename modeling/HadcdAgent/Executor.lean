import HadcdAgent.Lib.Run
import HadcdAgent.Lib.Json

/-!
# The task executor

`AgentExecutor` (`agent/executor.py`) over a process pool, with `run_registered`
(`hadcd_workloads/registry.py`) in the workers. Of the pool only this is assumed:
tasks start in the order they were given, at most `concurrency` at a time, and a
worker that dies breaks the pool for all that is pending and all that comes later. So
does an exception that arrives from a worker and cannot be rebuilt in the agent.
-/

namespace HadcdAgent.Executor

open Lib

/-! ### run_registered -/

/-- An exception by the name of its type and its text; `fatal` is one that is no
`Exception`, such as `SystemExit`. `rebuilds` is false of one that another process cannot
make again from its pickle, such as one whose `__init__` takes more than its text. -/
structure Exn where
  typeName : Str
  message : Str
  fatal : Bool
  rebuilds : Bool
  deriving DecidableEq

/-- How a call in a worker ends. -/
inductive Ending (α : Type) where
  | returns (result : α)
  | raises (e : Exn)
  | workerDies

abbrev TaskDict := List (Str × Json)

structure Task where
  taskType : Option Str
  args : Option TaskDict
  handler : TaskDict → Ending Json

def unknownTaskType (message : Str) : Exn := ⟨"UnknownTaskType", message, false, true⟩

def listRepr (names : List Str) : Str :=
  ("[" : Str) ++ List.intercalate ", ".toList (names.map fun n => '\'' :: n ++ ['\'']) ++ "]"

def coerceResult : Json → TaskDict
  | .obj kvs => kvs
  | result => [("value", result)]

/-- `run_registered`; `registered` are the sorted names of the registry. -/
def runRegistered (registered : List Str) (task : Task) : Ending TaskDict :=
  match task.taskType with
  | none | some [] => .raises (unknownTaskType "payload is missing 'task_type'")
  | some taskType =>
    if taskType ∈ registered then
      match task.handler (task.args.getD []) with
      | .returns result => .returns (coerceResult result)
      | .raises e => .raises e
      | .workerDies => .workerDies
    else .raises (unknownTaskType (("unknown task_type '" : Str) ++ taskType ++
      "'; registered: " ++ listRepr registered))

/-- What reaches the pool's owner. An exception that it cannot rebuild ends the pool
there as a dead worker does. -/
def delivered {α : Type} : Ending α → Ending α
  | .raises e => if e.rebuilds then .raises e else .workerDies
  | .returns result => .returns result
  | .workerDies => .workerDies

def call (registered : List Str) (task : Task) : Ending TaskDict :=
  delivered (runRegistered registered task)

theorem delivered_raises {α : Type} (e : Exn) :
    delivered (.raises e : Ending α) = if e.rebuilds then .raises e else .workerDies := rfl

theorem delivered_eq_returns {α : Type} {ending : Ending α} {result : α} :
    delivered ending = .returns result ↔ ending = .returns result := by
  cases ending with
  | raises e =>
    rw [delivered_raises]
    cases e.rebuilds <;> simp
  | returns r => exact Iff.rfl
  | workerDies => exact Iff.rfl

theorem delivered_eq_workerDies {α : Type} {ending : Ending α} :
    delivered ending = .workerDies ↔
      ending = .workerDies ∨ ∃ e, ending = .raises e ∧ e.rebuilds = false := by
  cases ending with
  | raises e =>
    rw [delivered_raises]
    cases he : e.rebuilds <;> simp [he]
  | returns r => simp [delivered]
  | workerDies => simp [delivered]

/-! ### AgentExecutor -/

structure TaskOutcome where
  success : Bool
  durationSec : ℤ
  result : Option TaskDict
  error : Option Str

/-- A fatal exception is not caught by `run` and ends its caller. -/
inductive Ran where
  | outcome (o : TaskOutcome)
  | escapes (e : Exn)

structure Job where
  task : Task
  start : ℤ

/-- `pending` is in the order of the submissions; `outcomes` is what the calls of
`run` have come to. -/
structure AgentExecutor where
  concurrency : ℕ+
  broken : Bool
  pending : List Job
  outcomes : List (Job × Ran)

def idle (concurrency : ℕ+) : AgentExecutor := ⟨concurrency, false, [], []⟩

/-- `__init__`; `none` is its `ValueError`. -/
def agentExecutor (concurrency : ℤ) : Option AgentExecutor :=
  if h : 1 ≤ concurrency then some (idle ⟨concurrency.toNat, by omega⟩) else none

def succeeded (job : Job) (now : ℤ) (result : TaskDict) : Ran :=
  .outcome ⟨true, now - job.start, some result, none⟩

def failed (job : Job) (now : ℤ) (e : Exn) : Ran :=
  if e.fatal then .escapes e
  else .outcome ⟨false, now - job.start, none, some (e.typeName ++ ": " ++ e.message)⟩

def poolBroken : Exn := ⟨"BrokenProcessPool",
  "A child process terminated abruptly, the process pool is not usable anymore", false, true⟩

def workerDied : Exn := ⟨"BrokenProcessPool",
  "A process in the process pool was terminated abruptly while the future was running or pending.",
  false, true⟩

inductive Event where
  | run (task : Task) (start now : ℤ)
  | finish (i : ℕ) (now : ℤ)

def submit (x : AgentExecutor) (job : Job) (now : ℤ) : AgentExecutor :=
  if x.broken then { x with outcomes := x.outcomes ++ [(job, failed job now poolBroken)] }
  else { x with pending := x.pending ++ [job] }

/-- The pending call at `i` ends, and with it `run` awaiting it. -/
def finish (registered : List Str) (x : AgentExecutor) (i : ℕ) (job : Job) (now : ℤ) :
    AgentExecutor :=
  match call registered job.task with
  | .returns result =>
    { x with
      pending := x.pending.eraseIdx i
      outcomes := x.outcomes ++ [(job, succeeded job now result)] }
  | .raises e =>
    { x with
      pending := x.pending.eraseIdx i
      outcomes := x.outcomes ++ [(job, failed job now e)] }
  | .workerDies =>
    { x with
      broken := true
      pending := []
      outcomes := x.outcomes ++ x.pending.map fun job => (job, failed job now workerDied) }

def step (registered : List Str) (x : AgentExecutor) : Event → Option AgentExecutor
  | .run task start now => some (submit x ⟨task, start⟩ now)
  | .finish i now =>
    if i < x.concurrency then (x.pending[i]?).map fun job => finish registered x i job now
    else none

/-! ### Isolation -/

def ReturnsWith (registered : List Str) (job : Job) (result : TaskDict) : Prop :=
  runRegistered registered job.task = .returns result

/-- The jobs that the executor has in hand at the step. -/
def inHand (x : AgentExecutor) : Event → List Job
  | .run task start _ => x.pending ++ [⟨task, start⟩]
  | .finish _ _ => x.pending

/-- No job in hand is lost, and a job whose own handler returns gets no outcome but
the success with the handler's result. -/
def Isolated (registered : List Str) (x : AgentExecutor) (event : Event) (y : AgentExecutor) : Prop :=
  ∃ added, y.outcomes = x.outcomes ++ added ∧
    (∀ job ∈ inHand x event, job ∈ y.pending ∨ ∃ ran, (job, ran) ∈ added) ∧
    ∀ job ran, (job, ran) ∈ added → ∀ result, ReturnsWith registered job result →
      ∃ now, ran = succeeded job now result

/-- The worker dies under the task, or an exception arrives from it that the agent cannot
rebuild. -/
def BreaksPool (registered : List Str) (task : Task) : Prop :=
  runRegistered registered task = .workerDies ∨
    ∃ e, runRegistered registered task = .raises e ∧ e.rebuilds = false

/-- No job whose handler returns is given to a broken pool, or is pending when a job
breaks it. -/
def NoneCaught (registered : List Str) (x : AgentExecutor) : Event → Prop
  | .run task start _ =>
    x.broken = true → ∀ result, ¬ ReturnsWith registered ⟨task, start⟩ result
  | .finish i _ => i < x.concurrency → ∀ job, x.pending[i]? = some job →
      BreaksPool registered job.task →
        ∀ other ∈ x.pending, ∀ result, ¬ ReturnsWith registered other result

theorem returnsWith_iff {registered : List Str} {job : Job} {result : TaskDict} :
    ReturnsWith registered job result ↔ call registered job.task = .returns result :=
  delivered_eq_returns.symm

theorem breaksPool_iff {registered : List Str} {task : Task} :
    BreaksPool registered task ↔ call registered task = .workerDies :=
  delivered_eq_workerDies.symm

theorem failed_ne_succeeded (job job' : Job) (now now' : ℤ) (e : Exn) (result : TaskDict) :
    failed job now e ≠ succeeded job' now' result := by
  unfold failed succeeded
  cases e.fatal <;> simp

theorem mem_eraseIdx_or {α : Type*} {a : α} {l : List α} (i : ℕ) (h : a ∈ l) :
    a ∈ l.eraseIdx i ∨ l[i]? = some a := by
  induction l generalizing i with
  | nil => cases h
  | cons b l ih =>
    cases i with
    | zero =>
      rcases List.mem_cons.mp h with rfl | h
      · exact Or.inr rfl
      · exact Or.inl h
    | succ i =>
      rcases List.mem_cons.mp h with rfl | h
      · exact Or.inl (List.mem_cons_self ..)
      · rcases ih i h with h | h
        · exact Or.inl (List.mem_cons_of_mem b h)
        · exact Or.inr h

section Steps

variable (registered : List Str) (x : AgentExecutor)

theorem no_success_of_failures {added : List (Job × Ran)}
    (hfailed : ∀ job ran, (job, ran) ∈ added → ∃ now e, ran = failed job now e)
    (hall : ∀ job ran, (job, ran) ∈ added → ∀ result, ReturnsWith registered job result →
      ∃ now, ran = succeeded job now result) {job : Job} {ran : Ran} (hmem : (job, ran) ∈ added)
    (result : TaskDict) : ¬ ReturnsWith registered job result := by
  intro hr
  obtain ⟨now, e, hf⟩ := hfailed job ran hmem
  obtain ⟨now', hs⟩ := hall job ran hmem result hr
  exact failed_ne_succeeded job job now now' e result (hf.symm.trans hs)

theorem isolated_run_iff (task : Task) (start now : ℤ) :
    Isolated registered x (.run task start now) (submit x ⟨task, start⟩ now) ↔
      NoneCaught registered x (.run task start now) := by
  unfold submit NoneCaught
  cases x.broken with
  | false => exact iff_of_true ⟨[], by simp, by simp [inHand], by simp⟩ (by simp)
  | true =>
    simp only [if_true, forall_const]
    constructor
    · rintro ⟨added, hadded, -, hall⟩ result
      have heq : added = [(⟨task, start⟩, failed ⟨task, start⟩ now poolBroken)] :=
        (List.append_cancel_left hadded).symm
      subst heq
      refine no_success_of_failures registered ?_ hall (List.mem_singleton_self _) result
      intro job ran hmem
      obtain ⟨rfl, rfl⟩ := Prod.mk.inj (List.mem_singleton.mp hmem)
      exact ⟨now, poolBroken, rfl⟩
    · intro hno
      refine ⟨_, rfl, ?_, fun job ran hmem result hr => ?_⟩
      · intro job hjob
        rcases List.mem_append.mp hjob with hjob | hjob
        · exact Or.inl hjob
        · cases List.mem_singleton.mp hjob
          exact Or.inr ⟨_, List.mem_singleton_self _⟩
      · obtain ⟨rfl, rfl⟩ := Prod.mk.inj (List.mem_singleton.mp hmem)
        exact absurd hr (hno result)

theorem isolated_single {i : ℕ} {job : Job} {ran : Ran} (now : ℤ) (hjob : x.pending[i]? = some job)
    (hran : ∀ result, ReturnsWith registered job result → ran = succeeded job now result) :
    Isolated registered x (.finish i now)
      { x with pending := x.pending.eraseIdx i, outcomes := x.outcomes ++ [(job, ran)] } := by
  refine ⟨[(job, ran)], rfl, ?_, ?_⟩
  · intro other hother
    have hpending : other ∈ x.pending := hother
    rcases mem_eraseIdx_or i hpending with hin | hat
    · exact Or.inl hin
    · rw [hjob] at hat
      cases hat
      exact Or.inr ⟨ran, List.mem_singleton_self _⟩
  · intro other ran' hmem result hr
    obtain ⟨rfl, rfl⟩ := Prod.mk.inj (List.mem_singleton.mp hmem)
    exact ⟨now, hran result hr⟩

theorem isolated_finish_iff {i : ℕ} {job : Job} (now : ℤ) (hjob : x.pending[i]? = some job) :
    Isolated registered x (.finish i now) (finish registered x i job now) ↔
      (BreaksPool registered job.task →
        ∀ other ∈ x.pending, ∀ result, ¬ ReturnsWith registered other result) := by
  rw [breaksPool_iff]
  unfold finish
  cases hend : call registered job.task with
  | returns result =>
    refine iff_of_true (isolated_single registered x now hjob fun result' hr => ?_) (by simp)
    rw [returnsWith_iff, hend] at hr
    cases hr
    rfl
  | raises e =>
    refine iff_of_true (isolated_single registered x now hjob fun result' hr => ?_) (by simp)
    rw [returnsWith_iff, hend] at hr
    cases hr
  | workerDies =>
    simp only [forall_const]
    constructor
    · rintro ⟨added, hadded, -, hall⟩ other hother result
      have heq := List.append_cancel_left hadded
      subst heq
      refine no_success_of_failures registered ?_ hall (List.mem_map_of_mem hother) result
      intro job' ran hmem
      obtain ⟨job'', -, heq⟩ := List.mem_map.mp hmem
      obtain ⟨rfl, rfl⟩ := Prod.mk.inj heq
      exact ⟨now, workerDied, rfl⟩
    · intro hno
      refine ⟨_, rfl, fun other hother => Or.inr ⟨_, List.mem_map_of_mem hother⟩, ?_⟩
      intro job' ran hmem result hr
      obtain ⟨job'', hin, heq⟩ := List.mem_map.mp hmem
      obtain ⟨rfl, rfl⟩ := Prod.mk.inj heq
      exact absurd hr (hno job'' hin result)

theorem isolated_iff (event : Event) :
    (∀ y, step registered x event = some y → Isolated registered x event y) ↔
      NoneCaught registered x event := by
  cases event with
  | run task start now =>
    rw [← isolated_run_iff]
    exact ⟨fun h => h _ rfl, fun h y hy => by cases hy; exact h⟩
  | finish i now =>
    simp only [NoneCaught, step]
    by_cases hi : i < x.concurrency
    · simp only [hi, if_true, forall_const]
      cases hjob : x.pending[i]? with
      | none => simp
      | some job => simp [isolated_finish_iff registered x now hjob]
    · simp [hi]

end Steps

/-- In every run each task whose own handler returns succeeds with its result exactly
when none of them meets a broken pool or is pending as one breaks. -/
theorem isolated_run (registered : List Str) (concurrency : ℕ+) (events : List Event) :
    Run.AlongSteps (step registered) (Isolated registered) (idle concurrency) events ↔
      Run.Along (step registered) (NoneCaught registered) (idle concurrency) events :=
  Run.along_iff fun x event => isolated_iff registered x event

def crashing : Task := ⟨some "crash".toList, none, fun _ => .workerDies⟩

def working : Task := ⟨some "work".toList, none, fun _ => .returns (.obj [])⟩

theorem not_isolated_after_crash :
    ¬ Run.AlongSteps (step ["crash".toList, "work".toList])
      (Isolated ["crash".toList, "work".toList]) (idle 1)
      ([.run crashing 0 0, .finish 0 1] ++ [.run working 2 3]) := by
  intro h
  have hlast := h.at rfl
  exact (isolated_iff _ _ _).mp hlast rfl [] rfl

end HadcdAgent.Executor
