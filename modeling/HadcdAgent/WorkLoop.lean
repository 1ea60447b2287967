import HadcdAgent.Executor
import HadcdAgent.Lib.WorkerPool

/-!
# Assignments from the poll to the end of the agent

`Agent._work_loop`, `_run_assignment`, `_drain_in_flight` and the end of `Agent.run`
(`agent/agent.py`), with the process pool of `AgentExecutor` (`agent/executor.py`) and
`_do_restart`. The events are those of the event loop and of the pool in any order; what
the steps of an assignment do with its files and its meter is not part of the state. The
clock counts nanoseconds.
-/

namespace HadcdAgent.WorkLoop

open Lib Executor

/-! ### The source -/

def drainGrace : ℤ := 30 * 1000000000

inductive End where
  | returned
  | raised
  | cancelled (now : ℤ)
  deriving DecidableEq

/-- Where a call of `_run_assignment` stands. -/
inductive Phase where
  | staging
  | pooled (start : ℤ)
  | finishing (o : TaskOutcome)
  | posting
  | reporting
  | ended (e : End)

/-- `task` is what the call hands to the executor. -/
structure Spawned where
  task : Task
  phase : Phase

def Spawned.live (t : Spawned) : Bool :=
  match t.phase with
  | .ended _ => false
  | _ => true

inductive Poll where
  | head      -- before the test of `stop`
  | request
  | done
  deriving DecidableEq

/-- Where `Agent.run` stands; `leaving` is its `finally`, `shut` is behind it. -/
inductive Stage where
  | looping
  | draining
  | leaving
  | shut
  | gone
  deriving DecidableEq

/-- `tasks` are the calls that were ever created; those of them that are live are
`_run_tasks`. The pool knows them by their number. -/
structure Agent where
  now : ℤ
  stopped : Bool
  poll : Poll
  stage : Stage
  crashed : Bool
  replaced : Bool
  drainStart : Option ℤ
  tasks : List Spawned
  pool : WorkerPool ℕ
  broken : Bool
  posts : List (ℕ × TaskOutcome)

def started (now : ℤ) : Agent :=
  ⟨now, false, .head, .looping, false, false, none, [], .idle, false, []⟩

inductive TaskEvent where
  | submit
  | giveUp (text : Str)    -- the blob download failed
  | raises
  | post
  | answered
  | returns

inductive Event where
  | tick (d : ℕ)
  | stop
  | wake
  | poll (reply : Option (List Task))
  | task (i : ℕ) (event : TaskEvent)
  | feed
  | take
  | finish (k : ℕ)
  | loopsReturn
  | loopRaises
  | drained
  | graceOver
  | shutdown
  | exit
  | replace      -- `os.execv`

def afterShutdown : Exn :=
  ⟨"RuntimeError", "cannot schedule new futures after shutdown", false, true⟩

/-- What `submit` of a closed pool raises. -/
def refusal (s : Agent) : Exn := if s.broken then poolBroken else afterShutdown

/-- What the call of `AgentExecutor.run` comes to. -/
def ranOf (registered : List Str) (now : ℤ) (job : Job) : Ran :=
  match call registered job.task with
  | .returns result => succeeded job now result
  | .raises e => failed job now e
  | .workerDies => failed job now workerDied

def received : Ran → Phase
  | .outcome o => .finishing o
  | .escapes _ => .ended .raised

def Spawned.receive (ran : Job → Ran) (t : Spawned) : Spawned :=
  match t.phase with
  | .pooled start => { t with phase := received (ran ⟨t.task, start⟩) }
  | _ => t

def Spawned.cancel (now : ℤ) (t : Spawned) : Spawned :=
  if t.live then { t with phase := .ended (.cancelled now) } else t

/-- The calls with the numbers in `is` change. -/
def change (is : List ℕ) (f : Spawned → Spawned) (tasks : List Spawned) : List Spawned :=
  tasks.mapIdx fun i t => if i ∈ is then f t else t

def Agent.enter (s : Agent) (i : ℕ) (t : Spawned) (phase : Phase) : Agent :=
  { s with tasks := s.tasks.set i { t with phase := phase } }

def Agent.withPool (s : Agent) (p : WorkerPool ℕ) : Agent := { s with pool := p }

def Agent.post (s : Agent) (i : ℕ) (o : TaskOutcome) : Agent :=
  { s with posts := s.posts ++ [(i, o)] }

def downloadFailed (text : Str) : TaskOutcome := ⟨false, 0, none, some text⟩

def submitStep (s : Agent) (i : ℕ) (t : Spawned) : Agent :=
  if s.pool.closed then s.enter i t (received (failed ⟨t.task, s.now⟩ s.now (refusal s)))
  else (s.enter i t (.pooled s.now)).withPool (s.pool.submit i)

def taskStep (s : Agent) (i : ℕ) (t : Spawned) (event : TaskEvent) : Option Agent :=
  match t.phase, event with
  | .staging, .submit => some (submitStep s i t)
  | .staging, .giveUp text => some ((s.enter i t .posting).post i (downloadFailed text))
  | .finishing o, .post => some ((s.enter i t .posting).post i o)
  | .posting, .answered => some (s.enter i t .reporting)
  | .reporting, .returns => some (s.enter i t (.ended .returned))
  | .staging, .raises | .finishing _, .raises | .posting, .raises | .reporting, .raises =>
    some (s.enter i t (.ended .raised))
  | _, _ => none

/-- The job of the worker at `k`, number `i`, has ended. -/
def finishStep (registered : List Str) (s : Agent) (k i : ℕ) (t : Spawned) : Agent :=
  match call registered t.task with
  | .workerDies =>
    { s with
      broken := true
      pool := s.pool.breakUp
      tasks := change s.pool.inHand (·.receive fun job => failed job s.now workerDied) s.tasks }
  | _ =>
    { s with
      pool := s.pool.release k
      tasks := change [i] (·.receive (ranOf registered s.now)) s.tasks }

def step (workers : ℕ) (registered : List Str) (s : Agent) : Event → Option Agent
  | .tick d => some { s with now := s.now + d }
  | .stop => some { s with stopped := true }
  | .wake =>
    if s.poll = .head then some { s with poll := if s.stopped then .done else .request } else none
  | .poll reply =>
    if s.poll = .request ∧ s.stage ≠ .gone then
      some { s with
        poll := .head
        tasks := s.tasks ++ (reply.getD []).map fun task => ⟨task, .staging⟩ }
    else none
  | .task i event =>
    if s.stage = .gone then none else s.tasks[i]?.bind fun t => taskStep s i t event
  | .feed => (s.pool.feed workers).map s.withPool
  | .take => (s.pool.take workers).map s.withPool
  | .finish k => s.pool.running[k]?.bind fun i =>
      s.tasks[i]?.map fun t => finishStep registered s k i t
  | .loopsReturn =>
    if s.stage = .looping ∧ s.poll = .done then
      some { s with
        stage := if s.tasks.any Spawned.live then .draining else .leaving
        drainStart := some s.now }
    else none
  | .loopRaises =>
    if s.stage = .looping then some { s with stage := .leaving, crashed := true } else none
  | .drained =>
    if s.stage = .draining ∧ s.tasks.any Spawned.live = false then some { s with stage := .leaving }
    else none
  | .graceOver => s.drainStart.bind fun since =>
      if s.stage = .draining ∧ since + drainGrace ≤ s.now then
        some { s with
          stage := .leaving
          pool := s.pool.cancelWaiting
          tasks := s.tasks.map (·.cancel s.now) }
      else none
  | .shutdown =>
    if s.stage = .leaving then
      some { s with
        stage := .shut
        pool := s.pool.close
        tasks := change s.pool.waiting (·.cancel s.now) s.tasks }
    else none
  | .exit =>
    if s.stage = .shut then
      some { s with stage := .gone, tasks := s.tasks.map (·.cancel s.now) }
    else none
  | .replace =>
    if s.stage = .gone then none else some { s with stage := .gone, replaced := true }

/-! ### What is kept -/

def Agent.posted (s : Agent) : List ℕ := s.posts.map Prod.fst

/-- A report of success carries what the handler of the call has returned in a worker. -/
def Honest (registered : List Str) (p : WorkerPool ℕ) (i : ℕ) (task : Task) (o : TaskOutcome) :
    Prop :=
  o.success = true →
    i ∈ p.started ∧ ∃ result, runRegistered registered task = .returns result ∧ o.result = some result

/-- A loop has raised, or the drain's grace was over by then. -/
def Cut (s : Agent) (now : ℤ) : Prop :=
  s.crashed = true ∨ ∃ since, s.drainStart = some since ∧ since + drainGrace ≤ now

def Placed (registered : List Str) (s : Agent) (i : ℕ) (t : Spawned) : Prop :=
  match t.phase with
  | .staging => i ∉ s.pool.submitted ∧ i ∉ s.posted
  | .pooled _ => i ∈ s.pool.inHand ∧ i ∉ s.posted
  | .finishing o => i ∉ s.posted ∧ Honest registered s.pool i t.task o
  | .posting | .reporting | .ended .returned => i ∈ s.posted
  | .ended .raised => True
  | .ended (.cancelled now) => Cut s now

structure Sound (workers : ℕ) (registered : List Str) (s : Agent) : Prop where
  pool : s.pool.Orderly workers
  submitted_nodup : s.pool.submitted.Nodup
  submitted_lt : ∀ i ∈ s.pool.submitted, i < s.tasks.length
  posted_nodup : s.posted.Nodup
  reported : ∀ i o, (i, o) ∈ s.posts → ∃ t, s.tasks[i]? = some t ∧
    Honest registered s.pool i t.task o
  placed : ∀ i t, s.tasks[i]? = some t → Placed registered s i t

/-- What the stage says of the calls. -/
structure Staged (s : Agent) : Prop where
  fresh : s.stage = .looping → s.drainStart = none
  replaced : s.replaced = true → s.stage = .gone
  done : s.crashed = false → s.replaced = false → s.stage ≠ .looping →
    s.poll = .done ∧ s.drainStart.isSome
  left : s.crashed = false → s.replaced = false → s.stage ≠ .looping → s.stage ≠ .draining →
    s.tasks.any Spawned.live = false
  gone : s.replaced = false → s.stage = .gone → s.tasks.any Spawned.live = false
  closed : s.replaced = false → s.stage = .shut ∨ s.stage = .gone →
    s.pool.waiting = [] ∧ s.pool.closed = true

theorem receive_task (ran : Job → Ran) (t : Spawned) : (t.receive ran).task = t.task := by
  unfold Spawned.receive
  cases t.phase <;> rfl

theorem cancel_task (now : ℤ) (t : Spawned) : (t.cancel now).task = t.task := by
  unfold Spawned.cancel
  split_ifs <;> rfl

theorem live_cancel (now : ℤ) (t : Spawned) : (t.cancel now).live = false := by
  unfold Spawned.cancel
  cases h : t.live with
  | true => rfl
  | false => exact h

theorem cancel_of_not_live (now : ℤ) {t : Spawned} (h : t.live = false) : t.cancel now = t := by
  rw [Spawned.cancel, h]
  rfl

theorem receive_of_not_live (ran : Job → Ran) {t : Spawned} (h : t.live = false) :
    t.receive ran = t := by
  obtain ⟨task, phase⟩ := t
  cases phase with
  | ended e => rfl
  | _ => cases h

theorem getElem?_change (is : List ℕ) (f : Spawned → Spawned) (tasks : List Spawned) (i : ℕ) :
    (change is f tasks)[i]? = tasks[i]?.map fun t => if i ∈ is then f t else t := by
  rw [change, List.getElem?_mapIdx]

/-- The calls of `ts` are among those of `us`, under their numbers. -/
def Continues (ts us : List Spawned) : Prop :=
  ∀ (i : ℕ) (t : Spawned), ts[i]? = some t → ∃ u : Spawned, us[i]? = some u ∧ u.task = t.task

theorem continues_change (is : List ℕ) {f : Spawned → Spawned} (tasks : List Spawned)
    (hf : ∀ t, (f t).task = t.task) : Continues tasks (change is f tasks) := by
  intro i t ht
  refine ⟨if i ∈ is then f t else t, ?_, ?_⟩
  · rw [getElem?_change, ht, Option.map_some]
  · split_ifs
    · exact hf t
    · rfl

theorem continues_map {f : Spawned → Spawned} (tasks : List Spawned)
    (hf : ∀ t, (f t).task = t.task) : Continues tasks (tasks.map f) := by
  intro i t ht
  exact ⟨f t, by rw [List.getElem?_map, ht, Option.map_some], hf t⟩

theorem continues_set {tasks : List Spawned} {i : ℕ} {t : Spawned} (ht : tasks[i]? = some t)
    (phase : Phase) : Continues tasks (tasks.set i { t with phase := phase }) := by
  intro j u hu
  by_cases hij : i = j
  · subst hij
    obtain rfl := Option.some.inj (ht.symm.trans hu)
    exact ⟨_, List.getElem?_set_self (List.getElem?_eq_some_iff.mp ht).1, rfl⟩
  · exact ⟨u, by rw [List.getElem?_set_ne hij, hu], rfl⟩

theorem continues_append (ts us : List Spawned) : Continues ts (ts ++ us) :=
  fun i t ht => ⟨t, by rw [List.getElem?_append_left (List.getElem?_eq_some_iff.mp ht).1, ht], rfl⟩

theorem Continues.length_le {ts us : List Spawned} (h : Continues ts us) :
    ts.length ≤ us.length := by
  by_contra hlt
  have hlt : us.length < ts.length := Nat.lt_of_not_le hlt
  obtain ⟨u, hu, -⟩ := h us.length ts[us.length] (List.getElem?_eq_getElem hlt)
  exact absurd (List.getElem?_eq_some_iff.mp hu).1 (Nat.lt_irrefl _)

section Steps

variable {workers : ℕ} {registered : List Str} {s u : Agent}

/-- Nothing has changed for a call that itself is as before and does not wait for the pool. -/
structure Keeps (s u : Agent) (i : ℕ) : Prop where
  submitted : i ∈ u.pool.submitted → i ∈ s.pool.submitted
  posted : i ∈ u.posted ↔ i ∈ s.posted
  started : s.pool.started ⊆ u.pool.started
  cut : ∀ now, Cut s now → Cut u now

theorem Honest.mono {p q : WorkerPool ℕ} {i : ℕ} {task : Task} {o : TaskOutcome}
    (h : Honest registered p i task o) (hsub : p.started ⊆ q.started) :
    Honest registered q i task o :=
  fun ho => ⟨hsub (h ho).1, (h ho).2⟩

theorem Placed.keep {i : ℕ} {t : Spawned} (h : Placed registered s i t) (hk : Keeps s u i)
    (hhand : ∀ start, t.phase = .pooled start → i ∈ s.pool.inHand → i ∈ u.pool.inHand) :
    Placed registered u i t := by
  unfold Placed at h ⊢
  split at h
  · exact ⟨fun hin => h.1 (hk.submitted hin), fun hin => h.2 (hk.posted.mp hin)⟩
  · exact ⟨hhand _ ‹_› h.1, fun hin => h.2 (hk.posted.mp hin)⟩
  · exact ⟨fun hin => h.1 (hk.posted.mp hin), h.2.mono hk.started⟩
  · exact hk.posted.mpr h
  · exact hk.posted.mpr h
  · exact hk.posted.mpr h
  · trivial
  · exact hk.cut _ h

/-- A step that posts nothing and submits nothing is sound by what it does to the calls. -/
theorem Sound.next (h : Sound workers registered s) (hpool : u.pool.Orderly workers)
    (hsub : u.pool.submitted = s.pool.submitted) (hposts : u.posts = s.posts)
    (hstarted : s.pool.started ⊆ u.pool.started) (htasks : Continues s.tasks u.tasks)
    (hplaced : ∀ i t, u.tasks[i]? = some t → Placed registered u i t) :
    Sound workers registered u where
  pool := hpool
  submitted_nodup := by rw [hsub]; exact h.submitted_nodup
  submitted_lt i hi := Nat.lt_of_lt_of_le (h.submitted_lt i (hsub ▸ hi)) htasks.length_le
  posted_nodup := by rw [Agent.posted, hposts]; exact h.posted_nodup
  reported i o ho := by
    obtain ⟨t, ht, hh⟩ := h.reported i o (hposts ▸ ho)
    obtain ⟨t', ht', htask⟩ := htasks i t ht
    exact ⟨t', ht', by rw [htask]; exact hh.mono hstarted⟩
  placed := hplaced

/-- A step of the control alone. -/
theorem Sound.control (h : Sound workers registered s) (hpool : u.pool = s.pool)
    (htasks : u.tasks = s.tasks) (hposts : u.posts = s.posts)
    (hcut : ∀ now, Cut s now → Cut u now) : Sound workers registered u := by
  have hkeep : ∀ i, Keeps s u i := fun i =>
    ⟨by rw [hpool]; exact id, by rw [Agent.posted, Agent.posted, hposts],
      by rw [hpool]; exact List.Subset.refl _, hcut⟩
  refine h.next (by rw [hpool]; exact h.pool) (by rw [hpool]) hposts
    (by rw [hpool]; exact List.Subset.refl _) ?_ fun i t ht => ?_
  · rw [htasks]
    exact fun i t ht => ⟨t, ht, rfl⟩
  · rw [htasks] at ht
    exact (h.placed i t ht).keep (hkeep i) fun _ _ => by rw [hpool]; exact id

theorem lt_of_getElem?_eq {i : ℕ} {t : Spawned} (ht : s.tasks[i]? = some t) : i < s.tasks.length :=
  (List.getElem?_eq_some_iff.mp ht).1

theorem Sound.posted_lt (h : Sound workers registered s) {i : ℕ} (hi : i ∈ s.posted) :
    i < s.tasks.length := by
  obtain ⟨⟨j, o⟩, ho, rfl⟩ := List.mem_map.mp hi
  obtain ⟨t, ht, -⟩ := h.reported j o ho
  exact lt_of_getElem?_eq ht

theorem Sound.poll (h : Sound workers registered s) (p : Poll) (tasks : List Task) :
    Sound workers registered
      { s with poll := p, tasks := s.tasks ++ tasks.map fun task => ⟨task, .staging⟩ } := by
  refine h.next h.pool rfl rfl (List.Subset.refl _) (continues_append _ _) fun i t ht => ?_
  by_cases hlt : i < s.tasks.length
  · rw [List.getElem?_append_left hlt] at ht
    exact (h.placed i t ht).keep ⟨id, Iff.rfl, List.Subset.refl _, fun _ => id⟩ fun _ _ => id
  · rw [List.getElem?_append_right (Nat.le_of_not_lt hlt), List.getElem?_map] at ht
    obtain ⟨task, -, rfl⟩ := Option.map_eq_some_iff.mp ht
    exact ⟨fun hin => hlt (h.submitted_lt i hin), fun hin => hlt (h.posted_lt hin)⟩

/-- The pool moves a job on, and nothing else happens. -/
theorem Sound.pool_moves (h : Sound workers registered s) {p : WorkerPool ℕ}
    (hpool : p.Orderly workers) (hhand : p.inHand = s.pool.inHand)
    (hsub : p.submitted = s.pool.submitted) (hstarted : s.pool.started ⊆ p.started) :
    Sound workers registered (s.withPool p) := by
  refine h.next hpool hsub rfl hstarted (fun i t ht => ⟨t, ht, rfl⟩) fun i t ht => ?_
  exact (h.placed i t ht).keep ⟨by rw [← hsub]; exact id, Iff.rfl, hstarted, fun _ => id⟩
    fun _ _ => by rw [← hhand]; exact id

theorem Sound.feed (h : Sound workers registered s) {p : WorkerPool ℕ}
    (hp : s.pool.feed workers = some p) : Sound workers registered (s.withPool p) := by
  have hhand := WorkerPool.inHand_feed hp
  have hpool := h.pool.feed hp
  obtain ⟨i, rest, -, -, rfl⟩ := WorkerPool.feed_eq_some_iff.mp hp
  exact h.pool_moves hpool hhand rfl (List.Subset.refl _)

theorem Sound.take (h : Sound workers registered s) {p : WorkerPool ℕ}
    (hp : s.pool.take workers = some p) : Sound workers registered (s.withPool p) := by
  have hhand := WorkerPool.inHand_take hp
  have hpool := h.pool.take hp
  obtain ⟨i, rest, -, -, rfl⟩ := WorkerPool.take_eq_some_iff.mp hp
  exact h.pool_moves hpool hhand rfl (List.subset_append_left _ _)

/-! ### The steps of a call -/

theorem placed_set {i j : ℕ} {t' v : Spawned} (hi : i < s.tasks.length)
    (hnew : Placed registered u i t')
    (hold : ∀ j v, j ≠ i → s.tasks[j]? = some v → Placed registered u j v)
    (hv : (s.tasks.set i t')[j]? = some v) : Placed registered u j v := by
  by_cases hij : i = j
  · subst hij
    rw [List.getElem?_set_self hi] at hv
    obtain rfl := Option.some.inj hv
    exact hnew
  · rw [List.getElem?_set_ne hij] at hv
    exact hold j v (Ne.symm hij) hv

theorem Sound.enter (h : Sound workers registered s) {i : ℕ} {t : Spawned}
    (ht : s.tasks[i]? = some t) {phase : Phase}
    (hphase : Placed registered s i { t with phase := phase }) :
    Sound workers registered (s.enter i t phase) := by
  refine h.next h.pool rfl rfl (List.Subset.refl _) (continues_set ht phase) fun j v hv => ?_
  have hkeep : ∀ j, Keeps s (s.enter i t phase) j :=
    fun j => ⟨id, Iff.rfl, List.Subset.refl _, fun _ => id⟩
  exact placed_set (lt_of_getElem?_eq ht) (hphase.keep (hkeep i) fun _ _ => id)
    (fun j v _ hv => (h.placed j v hv).keep (hkeep j) fun _ _ => id) hv

theorem Sound.post (h : Sound workers registered s) {i : ℕ} {t : Spawned} {o : TaskOutcome}
    (ht : s.tasks[i]? = some t) (hnew : i ∉ s.posted) (hh : Honest registered s.pool i t.task o) :
    Sound workers registered ((s.enter i t .posting).post i o) where
  pool := h.pool
  submitted_nodup := h.submitted_nodup
  submitted_lt j hj := Nat.lt_of_lt_of_le (h.submitted_lt j hj) (continues_set ht .posting).length_le
  posted_nodup := by
    rw [Agent.posted, Agent.post, List.map_append, List.map_singleton, ← List.concat_eq_append]
    exact h.posted_nodup.concat hnew
  reported j q hq := by
    rcases List.mem_append.mp hq with hq | hq
    · obtain ⟨v, hv, hhv⟩ := h.reported j q hq
      obtain ⟨w, hw, htask⟩ := continues_set ht .posting j v hv
      exact ⟨w, hw, by rw [htask]; exact hhv⟩
    · obtain ⟨rfl, rfl⟩ := Prod.mk.inj (List.mem_singleton.mp hq)
      exact ⟨_, List.getElem?_set_self (lt_of_getElem?_eq ht), hh⟩
  placed j v hv := by
    have hposted : ((s.enter i t .posting).post i o).posted = s.posted ++ [i] := by
      rw [Agent.posted, Agent.post, List.map_append]
      rfl
    refine placed_set (lt_of_getElem?_eq ht) ?_
      (fun j v hji hv => (h.placed j v hv).keep ?_ fun _ _ => id) hv
    · change i ∈ ((s.enter i t .posting).post i o).posted
      rw [hposted]
      exact List.mem_append_right _ (List.mem_singleton_self i)
    · refine ⟨id, ?_, List.Subset.refl _, fun _ => id⟩
      rw [hposted, List.mem_append, List.mem_singleton, or_iff_left hji]

theorem Sound.submit (h : Sound workers registered s) {i : ℕ} {t : Spawned}
    (ht : s.tasks[i]? = some t) (hnew : i ∉ s.pool.submitted) (hposted : i ∉ s.posted) :
    Sound workers registered ((s.enter i t (.pooled s.now)).withPool (s.pool.submit i)) where
  pool := h.pool.submit i
  submitted_nodup := by
    change (s.pool.submitted ++ [i]).Nodup
    rw [← List.concat_eq_append]
    exact h.submitted_nodup.concat hnew
  submitted_lt j hj := by
    refine Nat.lt_of_lt_of_le ?_ (continues_set ht (.pooled s.now)).length_le
    rcases List.mem_append.mp hj with hj | hj
    · exact h.submitted_lt j hj
    · rw [List.mem_singleton.mp hj]
      exact lt_of_getElem?_eq ht
  posted_nodup := h.posted_nodup
  reported j q hq := by
    obtain ⟨v, hv, hhv⟩ := h.reported j q hq
    obtain ⟨w, hw, htask⟩ := continues_set ht (.pooled s.now) j v hv
    exact ⟨w, hw, by rw [htask]; exact hhv⟩
  placed j v hv := by
    refine placed_set (lt_of_getElem?_eq ht) ?_
      (fun j v hji hv => (h.placed j v hv).keep ?_ fun _ _ hin => ?_) hv
    · change i ∈ (s.pool.submit i).inHand ∧ i ∉ s.posted
      rw [WorkerPool.inHand_submit]
      exact ⟨List.mem_append_right _ (List.mem_singleton_self i), hposted⟩
    · refine ⟨fun hin => ?_, Iff.rfl, List.Subset.refl _, fun _ => id⟩
      exact (List.mem_append.mp hin).resolve_right fun hin => hji (List.mem_singleton.mp hin)
    · change j ∈ (s.pool.submit i).inHand
      rw [WorkerPool.inHand_submit]
      exact List.mem_append_left _ hin

theorem honest_of_failure {p : WorkerPool ℕ} {i : ℕ} {task : Task} {o : TaskOutcome}
    (h : o.success = false) : Honest registered p i task o :=
  fun ho => absurd (h.symm.trans ho) Bool.false_ne_true

theorem placed_received_failed {i : ℕ} {task : Task} {job : Job} {now : ℤ} {e : Exn}
    (hposted : i ∉ s.posted) : Placed registered s i ⟨task, received (failed job now e)⟩ := by
  unfold failed
  cases e.fatal with
  | true => trivial
  | false => exact ⟨hposted, honest_of_failure rfl⟩

theorem Sound.taskStep (h : Sound workers registered s) {i : ℕ} {t : Spawned} {event : TaskEvent}
    (ht : s.tasks[i]? = some t) (hu : taskStep s i t event = some u) :
    Sound workers registered u := by
  have hplaced := h.placed i t ht
  obtain ⟨task, phase⟩ := t
  cases phase with
  | staging =>
    cases event with
    | submit =>
      obtain rfl := Option.some.inj hu
      unfold submitStep
      split_ifs with hclosed
      · exact h.enter ht (placed_received_failed hplaced.2)
      · exact h.submit ht hplaced.1 hplaced.2
    | giveUp text =>
      obtain rfl := Option.some.inj hu
      exact h.post ht hplaced.2 (honest_of_failure rfl)
    | raises =>
      obtain rfl := Option.some.inj hu
      exact h.enter ht trivial
    | _ => cases hu
  | finishing o =>
    cases event with
    | post =>
      obtain rfl := Option.some.inj hu
      exact h.post ht hplaced.1 hplaced.2
    | raises =>
      obtain rfl := Option.some.inj hu
      exact h.enter ht trivial
    | _ => cases hu
  | posting =>
    cases event with
    | answered =>
      obtain rfl := Option.some.inj hu
      exact h.enter ht hplaced
    | raises =>
      obtain rfl := Option.some.inj hu
      exact h.enter ht trivial
    | _ => cases hu
  | reporting =>
    cases event with
    | returns =>
      obtain rfl := Option.some.inj hu
      exact h.enter ht hplaced
    | raises =>
      obtain rfl := Option.some.inj hu
      exact h.enter ht trivial
    | _ => cases hu
  | pooled start => cases hu
  | ended e => cases hu

/-! ### The ends of jobs and the cancellations -/

theorem Placed.receive {ran : Job → Ran} {i : ℕ} {t : Spawned} (h : Placed registered s i t)
    (hk : Keeps s u i)
    (hran : ∀ start, i ∈ s.pool.inHand → i ∉ s.posted →
      Placed registered u i ⟨t.task, received (ran ⟨t.task, start⟩)⟩) :
    Placed registered u i (t.receive ran) := by
  obtain ⟨task, phase⟩ := t
  cases phase with
  | pooled start => exact hran start h.1 h.2
  | _ => exact h.keep hk fun _ hp => by cases hp

theorem Placed.cancel {now : ℤ} {i : ℕ} {t : Spawned} (h : Placed registered s i t)
    (hk : Keeps s u i) (hcut : t.live = true → Cut u now) :
    Placed registered u i (t.cancel now) := by
  cases hlive : t.live with
  | true =>
    rw [Spawned.cancel, if_pos hlive]
    exact hcut hlive
  | false =>
    rw [cancel_of_not_live now hlive]
    refine h.keep hk fun start hp => ?_
    rw [Spawned.live, hp] at hlive
    cases hlive

theorem placed_received_ranOf {i : ℕ} {task : Task} {start now : ℤ} (hposted : i ∉ s.posted)
    (hstarted : i ∈ s.pool.started) :
    Placed registered s i ⟨task, received (ranOf registered now ⟨task, start⟩)⟩ := by
  unfold ranOf
  cases hr : call registered task with
  | returns result =>
    exact ⟨hposted, fun _ => ⟨hstarted, result, delivered_eq_returns.mp hr, rfl⟩⟩
  | raises e => exact placed_received_failed hposted
  | workerDies => exact placed_received_failed hposted

theorem mem_change {is : List ℕ} {f : Spawned → Spawned} {tasks : List Spawned} {i : ℕ}
    {v : Spawned} (hv : (change is f tasks)[i]? = some v) :
    ∃ t, tasks[i]? = some t ∧ v = if i ∈ is then f t else t := by
  rw [getElem?_change] at hv
  obtain ⟨t, ht, rfl⟩ := Option.map_eq_some_iff.mp hv
  exact ⟨t, ht, rfl⟩

theorem mem_eraseIdx_of_ne {l : List ℕ} {k i j : ℕ} (hk : l[k]? = some i) (hj : j ∈ l)
    (hne : j ≠ i) : j ∈ l.eraseIdx k := by
  rcases mem_eraseIdx_or k hj with hin | hat
  · exact hin
  · exact absurd (Option.some.inj (hat.symm.trans hk)) hne

theorem Sound.finishStep (h : Sound workers registered s) {k i : ℕ} {t : Spawned}
    (hk : s.pool.running[k]? = some i) (ht : s.tasks[i]? = some t) :
    Sound workers registered (finishStep registered s k i t) := by
  have hlt : k < s.pool.running.length := (List.getElem?_eq_some_iff.mp hk).1
  have hstarted : i ∈ s.pool.started := h.pool.runs.subset (List.mem_of_getElem? hk)
  have hreturns : Sound workers registered { s with
      pool := s.pool.release k, tasks := change [i] (·.receive (ranOf registered s.now)) s.tasks } := by
    refine h.next (h.pool.release k) rfl rfl (List.Subset.refl _)
      (continues_change [i] s.tasks (receive_task _)) fun j v hv => ?_
    obtain ⟨w, hw, rfl⟩ := mem_change hv
    have hkeep : Keeps s { s with
        pool := s.pool.release k
        tasks := change [i] (·.receive (ranOf registered s.now)) s.tasks } j :=
      ⟨id, Iff.rfl, List.Subset.refl _, fun _ => id⟩
    split_ifs with hj
    · obtain rfl := List.mem_singleton.mp hj
      exact (h.placed j w hw).receive hkeep fun start _ hposted =>
        placed_received_ranOf hposted hstarted
    · refine (h.placed j w hw).keep hkeep fun _ _ hin => ?_
      change j ∈ (s.pool.release k).inHand
      rw [WorkerPool.inHand_release hlt]
      have hat : s.pool.inHand[k]? = some i := by
        rw [WorkerPool.inHand, List.append_assoc, List.getElem?_append_left hlt, hk]
      exact mem_eraseIdx_of_ne hat hin fun hji => hj (List.mem_singleton.mpr hji)
  unfold WorkLoop.finishStep
  split
  · refine h.next h.pool.breakUp rfl rfl (List.Subset.refl _)
      (continues_change _ s.tasks (receive_task _)) fun j v hv => ?_
    obtain ⟨w, hw, rfl⟩ := mem_change hv
    split_ifs with hj
    · exact (h.placed j w hw).receive ⟨id, Iff.rfl, List.Subset.refl _, fun _ => id⟩
        fun start _ hposted => placed_received_failed hposted
    · exact (h.placed j w hw).keep ⟨id, Iff.rfl, List.Subset.refl _, fun _ => id⟩
        fun _ _ hin => absurd hin hj
  · exact hreturns

/-- Every call that is still live is cancelled. -/
theorem Sound.cancel (h : Sound workers registered s) {p : WorkerPool ℕ} (stage : Stage)
    (hpool : p.Orderly workers) (hsub : p.submitted = s.pool.submitted)
    (hstarted : p.started = s.pool.started)
    (hcut : s.tasks.any Spawned.live = true → Cut s s.now) :
    Sound workers registered
      { s with stage := stage, pool := p, tasks := s.tasks.map (·.cancel s.now) } := by
  refine h.next hpool hsub rfl (hstarted ▸ List.Subset.refl _)
    (continues_map s.tasks (cancel_task s.now)) fun i v hv => ?_
  rw [List.getElem?_map] at hv
  obtain ⟨t, ht, rfl⟩ := Option.map_eq_some_iff.mp hv
  refine (h.placed i t ht).cancel
    ⟨by rw [hsub]; exact id, Iff.rfl, hstarted ▸ List.Subset.refl _, fun _ => id⟩ fun hlive => ?_
  exact hcut (List.any_eq_true.mpr ⟨t, List.mem_of_getElem? ht, hlive⟩)

theorem Sound.shutdown (h : Sound workers registered s) (stage : Stage)
    (hcut : s.tasks.any Spawned.live = true → Cut s s.now) :
    Sound workers registered { s with
      stage := stage
      pool := s.pool.close
      tasks := change s.pool.waiting (·.cancel s.now) s.tasks } := by
  refine h.next h.pool.close rfl rfl (List.Subset.refl _)
    (continues_change _ s.tasks (cancel_task s.now)) fun i v hv => ?_
  obtain ⟨t, ht, rfl⟩ := mem_change hv
  split_ifs with hi
  · exact (h.placed i t ht).cancel ⟨id, Iff.rfl, List.Subset.refl _, fun _ => id⟩ fun hlive =>
      hcut (List.any_eq_true.mpr ⟨t, List.mem_of_getElem? ht, hlive⟩)
  · refine (h.placed i t ht).keep ⟨id, Iff.rfl, List.Subset.refl _, fun _ => id⟩ fun _ _ hin => ?_
    exact List.mem_append_left _ ((List.mem_append.mp hin).resolve_right hi)

/-! ### The stage -/

theorem any_live_map_cancel (now : ℤ) (tasks : List Spawned) :
    (tasks.map (·.cancel now)).any Spawned.live = false := by
  rw [List.any_map, List.any_eq_false]
  intro t _
  rw [Function.comp_apply, live_cancel]
  exact Bool.false_ne_true

theorem any_live_change {is : List ℕ} {f : Spawned → Spawned} {tasks : List Spawned}
    (hf : ∀ t, t.live = false → (f t).live = false) (h : tasks.any Spawned.live = false) :
    (change is f tasks).any Spawned.live = false := by
  rw [List.any_eq_false] at h ⊢
  intro v hv
  obtain ⟨i, hi⟩ := List.mem_iff_getElem?.mp hv
  obtain ⟨t, ht, rfl⟩ := mem_change hi
  have hlive := Bool.eq_false_of_not_eq_true (h t (List.mem_of_getElem? ht))
  refine Bool.not_eq_true _ ▸ ?_
  split_ifs
  · exact hf t hlive
  · exact hlive

/-- The control is as before. -/
structure SameControl (s u : Agent) : Prop where
  stage : u.stage = s.stage
  crashed : u.crashed = s.crashed
  replaced : u.replaced = s.replaced
  poll : u.poll = s.poll
  drainStart : u.drainStart = s.drainStart

theorem Staged.same (h : Staged s) (hc : SameControl s u)
    (htasks : s.tasks.any Spawned.live = false → u.tasks.any Spawned.live = false)
    (hpool : s.pool.waiting = [] ∧ s.pool.closed = true →
      u.pool.waiting = [] ∧ u.pool.closed = true) : Staged u where
  fresh hs := by rw [hc.drainStart]; exact h.fresh (hc.stage ▸ hs)
  replaced hr := by rw [hc.stage]; exact h.replaced (hc.replaced ▸ hr)
  done hcr hr hs := by
    rw [hc.poll, hc.drainStart]
    exact h.done (hc.crashed ▸ hcr) (hc.replaced ▸ hr) (hc.stage ▸ hs)
  left hcr hr hs hd :=
    htasks (h.left (hc.crashed ▸ hcr) (hc.replaced ▸ hr) (hc.stage ▸ hs) (hc.stage ▸ hd))
  gone hr hs := htasks (h.gone (hc.replaced ▸ hr) (hc.stage ▸ hs))
  closed hr hs := hpool (h.closed (hc.replaced ▸ hr) (hc.stage ▸ hs))

/-- After the drain only a raised loop leaves calls behind. -/
theorem Staged.crashed_of_live (h : Staged s) (hstage : s.stage = .leaving ∨ s.stage = .shut)
    (hlive : s.tasks.any Spawned.live = true) : s.crashed = true := by
  have hne : s.stage ≠ .looping ∧ s.stage ≠ .draining ∧ s.stage ≠ .gone := by
    obtain hs | hs := hstage <;> rw [hs] <;> decide
  by_contra hcr
  have hreplaced : s.replaced = false :=
    Bool.eq_false_of_not_eq_true fun hr => hne.2.2 (h.replaced hr)
  have hnone := h.left (Bool.eq_false_of_not_eq_true hcr) hreplaced hne.1 hne.2.1
  exact Bool.false_ne_true (hnone.symm.trans hlive)

theorem live_of_taskStep {i : ℕ} {t : Spawned} {event : TaskEvent}
    (hu : WorkLoop.taskStep s i t event = some u) : t.live = true := by
  obtain ⟨task, phase⟩ := t
  cases phase with
  | ended e => cases hu
  | _ => rfl

theorem control_of_taskStep {i : ℕ} {t : Spawned} {event : TaskEvent}
    (hu : WorkLoop.taskStep s i t event = some u) : SameControl s u := by
  obtain ⟨task, phase⟩ := t
  cases phase <;> cases event <;> first
    | exact absurd hu.symm (Option.some_ne_none u)
    | obtain rfl := Option.some.inj hu
      first
      | exact ⟨rfl, rfl, rfl, rfl, rfl⟩
      | unfold submitStep
        split_ifs <;> exact ⟨rfl, rfl, rfl, rfl, rfl⟩

theorem pool_of_taskStep {i : ℕ} {t : Spawned} {event : TaskEvent}
    (hu : WorkLoop.taskStep s i t event = some u) (hclosed : s.pool.closed = true) :
    u.pool = s.pool := by
  obtain ⟨task, phase⟩ := t
  cases phase <;> cases event <;> first
    | exact absurd hu.symm (Option.some_ne_none u)
    | obtain rfl := Option.some.inj hu
      first
      | rfl
      | unfold submitStep
        rw [if_pos hclosed]
        rfl

theorem Staged.taskStep (h : Staged s) {i : ℕ} {t : Spawned} {event : TaskEvent}
    (ht : s.tasks[i]? = some t) (hu : WorkLoop.taskStep s i t event = some u) : Staged u := by
  refine h.same (control_of_taskStep hu) (fun hnone => ?_) fun hp => ?_
  · have hlive := List.any_eq_false.mp hnone t (List.mem_of_getElem? ht)
    exact absurd (live_of_taskStep hu) hlive
  · rw [pool_of_taskStep hu hp.2]
    exact hp

theorem Staged.finishStep (h : Staged s) (k i : ℕ) (t : Spawned) :
    Staged (WorkLoop.finishStep registered s k i t) := by
  have hreceive : ∀ (ran : Job → Ran) (t : Spawned), t.live = false → (t.receive ran).live = false :=
    fun ran t ht => by rw [receive_of_not_live ran ht]; exact ht
  unfold WorkLoop.finishStep
  split
  · exact h.same ⟨rfl, rfl, rfl, rfl, rfl⟩ (any_live_change (hreceive _)) fun _ => ⟨rfl, rfl⟩
  · exact h.same ⟨rfl, rfl, rfl, rfl, rfl⟩ (any_live_change (hreceive _)) id

theorem Staged.withPool (h : Staged s) {p : WorkerPool ℕ}
    (hpool : s.pool.waiting = [] ∧ s.pool.closed = true → p.waiting = [] ∧ p.closed = true) :
    Staged (s.withPool p) :=
  h.same ⟨rfl, rfl, rfl, rfl, rfl⟩ id hpool

end Steps

def Invariant (workers : ℕ) (registered : List Str) (s : Agent) : Prop :=
  Sound workers registered s ∧ Staged s

theorem invariant_step {workers : ℕ} {registered : List Str} {s u : Agent} {event : Event}
    (h : Invariant workers registered s) (hu : step workers registered s event = some u) :
    Invariant workers registered u := by
  obtain ⟨hsound, hstaged⟩ := h
  have hsame : ∀ now, Cut s now → Cut s now := fun _ => id
  cases event with
  | tick d =>
    obtain rfl := Option.some.inj hu
    exact ⟨hsound.control rfl rfl rfl hsame, hstaged.same ⟨rfl, rfl, rfl, rfl, rfl⟩ id id⟩
  | stop =>
    obtain rfl := Option.some.inj hu
    exact ⟨hsound.control rfl rfl rfl hsame, hstaged.same ⟨rfl, rfl, rfl, rfl, rfl⟩ id id⟩
  | wake =>
    obtain ⟨hhead, ⟨⟩⟩ := Option.ite_none_right_eq_some.mp hu
    refine ⟨hsound.control rfl rfl rfl hsame, hstaged.fresh, hstaged.replaced, ?_, hstaged.left,
      hstaged.gone, hstaged.closed⟩
    intro hcr hr hs
    exact absurd (hhead.symm.trans (hstaged.done hcr hr hs).1) Poll.noConfusion
  | poll reply =>
    obtain ⟨⟨hreq, hgone⟩, ⟨⟩⟩ := Option.ite_none_right_eq_some.mp hu
    have hloop : s.crashed = false → s.replaced = false → s.stage = .looping := by
      intro hcr hr
      by_contra hs
      exact absurd (hreq.symm.trans (hstaged.done hcr hr hs).1) Poll.noConfusion
    exact ⟨hsound.poll _ _, hstaged.fresh, hstaged.replaced,
      fun hcr hr hs => absurd (hloop hcr hr) hs, fun hcr hr hs _ => absurd (hloop hcr hr) hs,
      fun _ hs => absurd hs hgone, hstaged.closed⟩
  | task i event =>
    obtain ⟨hgone, hu⟩ := Option.ite_none_left_eq_some.mp hu
    obtain ⟨t, ht, hu⟩ := Option.bind_eq_some_iff.mp hu
    exact ⟨hsound.taskStep ht hu, hstaged.taskStep ht hu⟩
  | feed =>
    obtain ⟨p, hp, rfl⟩ := Option.map_eq_some_iff.mp hu
    refine ⟨hsound.feed hp, hstaged.withPool fun ⟨hw, _⟩ => ?_⟩
    obtain ⟨i, rest, hwait, -⟩ := WorkerPool.feed_eq_some_iff.mp hp
    exact absurd (hwait.symm.trans hw) (List.cons_ne_nil i rest)
  | take =>
    obtain ⟨p, hp, rfl⟩ := Option.map_eq_some_iff.mp hu
    refine ⟨hsound.take hp, hstaged.withPool fun hw => ?_⟩
    obtain ⟨i, rest, -, -, rfl⟩ := WorkerPool.take_eq_some_iff.mp hp
    exact hw
  | finish k =>
    obtain ⟨i, hk, hu⟩ := Option.bind_eq_some_iff.mp hu
    obtain ⟨t, ht, rfl⟩ := Option.map_eq_some_iff.mp hu
    exact ⟨hsound.finishStep hk ht, hstaged.finishStep k i t⟩
  | loopsReturn =>
    obtain ⟨⟨hlooping, hdone⟩, ⟨⟩⟩ := Option.ite_none_right_eq_some.mp hu
    refine ⟨hsound.control rfl rfl rfl fun now hc => ?_, ?_, ?_, fun _ _ _ => ⟨hdone, rfl⟩,
      ?_, ?_, ?_⟩
    · obtain hc | ⟨since, hs, -⟩ := hc
      · exact Or.inl hc
      · exact absurd (hs.symm.trans (hstaged.fresh hlooping)) (Option.some_ne_none since)
    · intro hs
      split_ifs at hs
    · intro hr
      exact absurd (hlooping.symm.trans (hstaged.replaced hr)) Stage.noConfusion
    · intro _ _ _ hd
      by_contra hlive
      exact hd (if_pos (Bool.eq_true_of_not_eq_false hlive))
    · intro _ hs
      dsimp only at hs
      split_ifs at hs
    · intro _ hs
      dsimp only at hs
      split_ifs at hs <;> exact absurd hs (by decide)
  | loopRaises =>
    obtain ⟨hlooping, ⟨⟩⟩ := Option.ite_none_right_eq_some.mp hu
    refine ⟨hsound.control rfl rfl rfl fun _ _ => Or.inl rfl, Stage.noConfusion, fun hr => ?_,
      fun hcr => absurd hcr.symm Bool.false_ne_true, fun hcr => absurd hcr.symm Bool.false_ne_true,
      fun _ => Stage.noConfusion, fun _ hs => hs.elim Stage.noConfusion Stage.noConfusion⟩
    exact absurd (hlooping.symm.trans (hstaged.replaced hr)) Stage.noConfusion
  | drained =>
    obtain ⟨⟨hdraining, hnone⟩, ⟨⟩⟩ := Option.ite_none_right_eq_some.mp hu
    refine ⟨hsound.control rfl rfl rfl hsame, Stage.noConfusion, fun hr => ?_, fun hcr hr _ => ?_,
      fun _ _ _ _ => hnone, fun _ => Stage.noConfusion,
      fun _ hs => hs.elim Stage.noConfusion Stage.noConfusion⟩
    · exact absurd (hdraining.symm.trans (hstaged.replaced hr)) Stage.noConfusion
    · exact hstaged.done hcr hr (by rw [hdraining]; exact Stage.noConfusion)
  | graceOver =>
    obtain ⟨since, hsince, hu⟩ := Option.bind_eq_some_iff.mp hu
    obtain ⟨⟨hdraining, hle⟩, ⟨⟩⟩ := Option.ite_none_right_eq_some.mp hu
    refine ⟨hsound.cancel .leaving hsound.pool.cancelWaiting rfl rfl fun _ =>
        Or.inr ⟨since, hsince, hle⟩,
      Stage.noConfusion, fun hr => ?_, fun hcr hr _ => ?_,
      fun _ _ _ _ => any_live_map_cancel _ _, fun _ => Stage.noConfusion,
      fun _ hs => hs.elim Stage.noConfusion Stage.noConfusion⟩
    · exact absurd (hdraining.symm.trans (hstaged.replaced hr)) Stage.noConfusion
    · exact hstaged.done hcr hr (by rw [hdraining]; exact Stage.noConfusion)
  | shutdown =>
    obtain ⟨hleaving, ⟨⟩⟩ := Option.ite_none_right_eq_some.mp hu
    refine ⟨hsound.shutdown .shut fun hlive => Or.inl ?_, Stage.noConfusion, fun hr => ?_,
      fun hcr hr _ => hstaged.done hcr hr (by rw [hleaving]; exact Stage.noConfusion),
      fun hcr hr _ _ => any_live_change (fun t _ => live_cancel s.now t)
        (hstaged.left hcr hr (by rw [hleaving]; exact Stage.noConfusion)
          (by rw [hleaving]; exact Stage.noConfusion)),
      fun _ => Stage.noConfusion, fun _ _ => ⟨rfl, rfl⟩⟩
    · exact hstaged.crashed_of_live (Or.inl hleaving) hlive
    · exact absurd (hleaving.symm.trans (hstaged.replaced hr)) Stage.noConfusion
  | exit =>
    obtain ⟨hshut, ⟨⟩⟩ := Option.ite_none_right_eq_some.mp hu
    exact ⟨hsound.cancel .gone hsound.pool rfl rfl fun hlive =>
        Or.inl (hstaged.crashed_of_live (Or.inr hshut) hlive),
      Stage.noConfusion, fun _ => rfl,
      fun hcr hr _ => hstaged.done hcr hr (by rw [hshut]; exact Stage.noConfusion),
      fun _ _ _ _ => any_live_map_cancel _ _, fun _ _ => any_live_map_cancel _ _,
      fun hr _ => hstaged.closed hr (Or.inl hshut)⟩
  | replace =>
    obtain ⟨-, ⟨⟩⟩ := Option.ite_none_left_eq_some.mp hu
    refine ⟨hsound.control rfl rfl rfl hsame, Stage.noConfusion, fun _ => rfl, ?_, ?_, ?_, ?_⟩
    · exact fun _ hr => absurd hr.symm Bool.false_ne_true
    · exact fun _ hr => absurd hr.symm Bool.false_ne_true
    · exact fun hr => absurd hr.symm Bool.false_ne_true
    · exact fun hr => absurd hr.symm Bool.false_ne_true

/-! ### Runs -/

theorem invariant_started (workers : ℕ) (registered : List Str) (now : ℤ) :
    Invariant workers registered (started now) where
  left := {
    pool := .idle workers
    submitted_nodup := List.nodup_nil
    submitted_lt := fun _ hi => absurd hi List.not_mem_nil
    posted_nodup := List.nodup_nil
    reported := fun _ _ ho => absurd ho List.not_mem_nil
    placed := fun _ _ ht => absurd ht (Option.some_ne_none _).symm }
  right := {
    fresh := fun _ => rfl
    replaced := fun hr => absurd hr Bool.false_ne_true
    done := fun _ _ hs => absurd rfl hs
    left := fun _ _ _ _ => rfl
    gone := fun _ _ => rfl
    closed := fun _ hs => hs.elim Stage.noConfusion Stage.noConfusion }

/-- What the agent has made of the assignments it was given. -/
structure Settled (workers : ℕ) (registered : List Str) (s : Agent) : Prop where
  once : s.posted.Nodup
  honest : ∀ i o, (i, o) ∈ s.posts → ∃ t, s.tasks[i]? = some t ∧ Honest registered s.pool i t.task o
  inOrder : s.pool.started.Sublist s.pool.submitted ∧ s.pool.started.Nodup
  bounded : s.pool.running.length ≤ workers
  awaited : ∀ i t start, s.tasks[i]? = some t → t.phase = .pooled start → i ∈ s.pool.inHand
  silent : ∀ i t e, s.tasks[i]? = some t → t.phase = .ended e → i ∉ s.posted →
    e = .raised ∨ ∃ now, e = .cancelled now ∧ Cut s now
  atEnd : s.stage = .gone → s.replaced = false →
    (∀ t ∈ s.tasks, t.live = false) ∧ s.pool.inHand.length ≤ 2 * workers + 1

theorem Invariant.settled {workers : ℕ} {registered : List Str} {s : Agent}
    (h : Invariant workers registered s) : Settled workers registered s where
  once := h.1.posted_nodup
  honest := h.1.reported
  inOrder := ⟨h.1.pool.started_sublist, h.1.pool.started_nodup h.1.submitted_nodup⟩
  bounded := h.1.pool.running_le
  awaited i t start ht hp := by
    have hplaced := h.1.placed i t ht
    rw [Placed, hp] at hplaced
    exact hplaced.1
  silent i t e ht hp hposted := by
    have hplaced := h.1.placed i t ht
    rw [Placed, hp] at hplaced
    cases e with
    | returned => exact absurd hplaced hposted
    | raised => exact Or.inl rfl
    | cancelled now => exact Or.inr ⟨now, rfl, hplaced⟩
  atEnd hgone hr := by
    refine ⟨fun t ht => Bool.eq_false_of_not_eq_true ?_, ?_⟩
    · exact List.any_eq_false.mp (h.2.gone hr hgone) t ht
    · have hrunning := h.1.pool.running_le
      have hcalled := h.1.pool.called_le
      rw [WorkerPool.inHand, (h.2.closed hr (Or.inr hgone)).1, List.append_nil, List.length_append]
      omega

def nap : Task := ⟨some "sleep".toList, none, fun _ => .returns (.obj [])⟩

def oneCut : List Event :=
  [.wake, .poll (some [nap, nap]), .task 0 .submit, .task 1 .submit, .feed, .take, .feed, .wake,
    .stop, .poll none, .wake, .finish 0, .task 0 .post, .loopsReturn, .take, .task 0 .answered,
    .tick 30000000000, .graceOver, .shutdown, .exit, .finish 0]

end HadcdAgent.WorkLoop
