import HadcdAgent.Lib.Run

/-!
# Rental sessions as interleaved tasks

`RentalSessionHandler` (`agent/rental_session_handler.py`) for one session id. A
call of `handle_sessions` launches tasks; each task is the sequence of its segments
between await points, with the executor's Docker calls as segments of their own.
The task's position in its list stands for the credentials it drew.
-/

namespace HadcdAgent.Rental

open Lib

/-! ### Tasks -/

/-- `_start_session`. -/
inductive StartPhase where
  | launched    -- not run yet
  | creating    -- `containers.run` handed to the executor
  | created     -- the executor has returned a container
  | refused     -- the executor has raised
  | locating    -- in `_get_tailscale_ip`
  | activating  -- registered in `_active`, in `_post_activate`
  | done
  deriving DecidableEq

/-- `_stop_session`. -/
inductive StopPhase where
  | launched
  | reporting   -- torn down, in `_post_stopped`
  | done
  deriving DecidableEq

/-- `_reconcile_active_session`. -/
inductive ReconcilePhase where
  | launched
  | found
  | missing
  | failed
  | reporting   -- in `_post_lost`
  | done
  deriving DecidableEq

/-- Who the map `_active` says runs the session: a start task, or the container
that a reconciliation found. -/
inductive ActiveEntry where
  | started (i : ℕ)
  | reconciled
  deriving DecidableEq

/-- The container `hadcd-session-<sid8>`; `creator` is `none` when an earlier
process left it. -/
structure Container where
  creator : Option ℕ
  running : Bool
  deriving DecidableEq

inductive Post where
  | activate (i : ℕ)
  | stopped
  | lost
  deriving DecidableEq

structure Session where
  container : Option Container
  active : Option ActiveEntry
  stopping : Bool
  reconciling : Bool
  starts : List StartPhase
  stops : List StopPhase
  reconciles : List ReconcilePhase
  posts : List Post
  deriving DecidableEq

def initial (container : Option Container) : Session :=
  ⟨container, none, false, false, [], [], [], []⟩

/-! ### Steps -/

inductive Status where
  | starting
  | active
  | stopping
  | other
  deriving DecidableEq

/-- How `containers.run` ends when no container has the name: `startFails` raises
after the container was created. -/
inductive CreateOutcome where
  | ok
  | createFails
  | startFails
  deriving DecidableEq

inductive DockerOutcome where
  | ok
  | raises
  deriving DecidableEq

inductive Input where
  | heartbeat (status : Status)
  | begin (i : ℕ) (proceeds : Bool)
  | create (i : ℕ) (outcome : CreateOutcome)
  | resume (i : ℕ)
  | register (i : ℕ)
  | activate (i : ℕ) (sent : Bool)
  | teardown (j : ℕ) (outcome : DockerOutcome)
  | report (j : ℕ) (sent : Bool)
  | look (k : ℕ) (outcome : DockerOutcome)
  | conclude (k : ℕ)
  | reportLost (k : ℕ) (sent : Bool)
  | containerExits
  | restart

def advance {α : Type} [DecidableEq α] (tasks : List α) (i : ℕ) (phase next : α) :
    Option (List α) :=
  if tasks[i]? = some phase then some (tasks.set i next) else none

/-- `handle_sessions` on one entry: the guards and the tasks they launch. -/
def handleSessions (s : Session) : Status → Session
  | .starting => if s.active = none then { s with starts := s.starts ++ [.launched] } else s
  | .active =>
    if s.reconciling then s
    else { s with reconciling := true, reconciles := s.reconciles ++ [.launched] }
  | .stopping =>
    if s.stopping then s else { s with stopping := true, stops := s.stops ++ [.launched] }
  | .other => s

def create (s : Session) (i : ℕ) (outcome : CreateOutcome) : Option Session :=
  match s.container, outcome with
  | none, .ok =>
    (advance s.starts i .creating .created).map fun starts =>
      { s with starts := starts, container := some ⟨some i, true⟩ }
  | none, .startFails =>
    (advance s.starts i .creating .refused).map fun starts =>
      { s with starts := starts, container := some ⟨some i, false⟩ }
  | _, _ =>
    (advance s.starts i .creating .refused).map fun starts => { s with starts := starts }

/-- The synchronous part of `_stop_session`: nothing else on the event loop runs
between its calls, and a container that the executor creates among them is as one
created before or after. -/
def teardown (s : Session) (j : ℕ) (outcome : DockerOutcome) : Option Session :=
  (advance s.stops j .launched .reporting).map fun stops =>
    { s with
      stops := stops
      active := none
      container := if outcome = .ok then none else s.container
      stopping := false }

def look (s : Session) (k : ℕ) (outcome : DockerOutcome) : Option Session :=
  let seen : ReconcilePhase := match outcome, s.container with
    | .raises, _ => .failed
    | .ok, some ⟨_, true⟩ => .found
    | .ok, _ => .missing
  (advance s.reconciles k .launched seen).map fun reconciles => { s with reconciles := reconciles }

/-- What `_reconcile_active_session` does with the executor's answer. -/
def conclude (s : Session) (k : ℕ) : Option Session :=
  match s.reconciles[k]? with
  | some .found => some { s with
      reconciles := s.reconciles.set k .done, active := some .reconciled, reconciling := false }
  | some .missing => some { s with reconciles := s.reconciles.set k .reporting, active := none }
  | some .failed => some { s with reconciles := s.reconciles.set k .done, reconciling := false }
  | _ => none

def step (s : Session) : Input → Option Session
  | .heartbeat status => some (handleSessions s status)
  | .begin i proceeds =>
    -- a media session without a models path returns before it creates anything
    (advance s.starts i .launched (if proceeds then .creating else .done)).map fun starts =>
      { s with starts := starts }
  | .create i outcome => create s i outcome
  | .resume i =>
    ((advance s.starts i .created .locating).or (advance s.starts i .refused .done)).map
      fun starts => { s with starts := starts }
  | .register i =>
    (advance s.starts i .locating .activating).map fun starts =>
      { s with starts := starts, active := some (.started i) }
  | .activate i sent =>
    (advance s.starts i .activating .done).map fun starts =>
      { s with starts := starts, posts := if sent then s.posts ++ [.activate i] else s.posts }
  | .teardown j outcome => teardown s j outcome
  | .report j sent =>
    (advance s.stops j .reporting .done).map fun stops =>
      { s with stops := stops, posts := if sent then s.posts ++ [.stopped] else s.posts }
  | .look k outcome => look s k outcome
  | .conclude k => conclude s k
  | .reportLost k sent =>
    (advance s.reconciles k .reporting .done).map fun reconciles =>
      { s with
        reconciles := reconciles
        reconciling := false
        posts := if sent then s.posts ++ [.lost] else s.posts }
  | .containerExits =>
    some { s with container := s.container.map fun c => { c with running := false } }
  | .restart => some { initial s.container with posts := s.posts }

theorem advance_eq_some {α : Type} [DecidableEq α] {tasks tasks' : List α} {i : ℕ}
    {phase next : α} (h : advance tasks i phase next = some tasks') :
    tasks[i]? = some phase ∧ tasks' = tasks.set i next := by
  rw [advance] at h
  split_ifs at h with hi
  exact ⟨hi, (Option.some.inj h).symm⟩

theorem advance_of_getElem? {α : Type} [DecidableEq α] {tasks : List α} {i : ℕ} {phase : α}
    (h : tasks[i]? = some phase) (next : α) :
    advance tasks i phase next = some (tasks.set i next) := if_pos h

theorem mem_of_advance {α : Type} [DecidableEq α] {tasks tasks' : List α} {i : ℕ}
    {phase next : α} (h : advance tasks i phase next = some tasks') : phase ∈ tasks :=
  List.mem_of_getElem? (advance_eq_some h).1

theorem next_mem_of_advance {α : Type} [DecidableEq α] {tasks tasks' : List α} {i : ℕ}
    {phase next : α} (h : advance tasks i phase next = some tasks') : next ∈ tasks' := by
  obtain ⟨hi, rfl⟩ := advance_eq_some h
  have hlt : i < (tasks.set i next).length := by
    rw [List.length_set]
    exact (List.getElem?_eq_some_iff.mp hi).1
  exact List.mem_of_getElem (List.getElem_set_self hlt)

theorem forall_mem_advance {α : Type} [DecidableEq α] {P : α → Prop} {tasks tasks' : List α}
    {i : ℕ} {phase next : α} (h : advance tasks i phase next = some tasks')
    (hall : ∀ q ∈ tasks, P q) (hnext : P next) : ∀ q ∈ tasks', P q := by
  intro q hq
  rw [(advance_eq_some h).2] at hq
  rcases List.mem_or_eq_of_mem_set hq with hm | rfl
  · exact hall q hm
  · exact hnext

/-! ### Stopping a session -/

/-- The start task can still create a container, register it or announce it. -/
def StartPhase.live : StartPhase → Bool
  | .launched | .creating | .created | .locating | .activating => true
  | .refused | .done => false

/-- What the dispatcher sends a session that it starts and later stops, with every
Docker call succeeding, within one process. -/
def Dispatched (s : Session) : Input → Prop
  | .heartbeat .starting => s.stops = []
  | .heartbeat .active => False
  | .create _ outcome => outcome = .ok
  | .teardown _ outcome => outcome = .ok
  | .restart => False
  | _ => True

instance : ∀ (s : Session) (i : Input), Decidable (Dispatched s i)
  | s, .heartbeat .starting => inferInstanceAs (Decidable (s.stops = []))
  | _, .heartbeat .active => instDecidableFalse
  | _, .create _ outcome => inferInstanceAs (Decidable (outcome = .ok))
  | _, .teardown _ outcome => inferInstanceAs (Decidable (outcome = .ok))
  | _, .restart => instDecidableFalse
  | _, .heartbeat .stopping | _, .heartbeat .other | _, .begin _ _ | _, .resume _ | _, .register _
  | _, .activate _ _ | _, .report _ _ | _, .look _ _ | _, .conclude _ | _, .reportLost _ _
  | _, .containerExits => instDecidableTrue

/-- No teardown runs while a start task is live. -/
def StartsSettled (s : Session) : Input → Prop
  | .teardown _ _ => ∀ p ∈ s.starts, p.live = false
  | _ => True

instance : ∀ (s : Session) (i : Input), Decidable (StartsSettled s i)
  | s, .teardown _ _ => inferInstanceAs (Decidable (∀ p ∈ s.starts, p.live = false))
  | _, .heartbeat _ | _, .create _ _ | _, .begin _ _ | _, .resume _ | _, .register _
  | _, .activate _ _ | _, .report _ _ | _, .look _ _ | _, .conclude _ | _, .reportLost _ _
  | _, .containerExits | _, .restart => instDecidableTrue

def Post.isActivate : Post → Bool
  | .activate _ => true
  | _ => false

def ActivatesFirst (posts : List Post) : Prop :=
  posts.Pairwise fun p q => p = .stopped → q.isActivate = false

structure Finished (s : Session) : Prop where
  starts : ∀ p ∈ s.starts, p = .done
  stops : ∀ p ∈ s.stops, p = .done
  reconciles : ∀ p ∈ s.reconciles, p = .done

/-- Once a `stopped` POST was sent and all tasks have finished, nothing is left. -/
def NothingLeft (s : Session) : Prop :=
  .stopped ∈ s.posts → Finished s →
    s.container = none ∧ s.active = none ∧ ActivatesFirst s.posts

def TornDown (s : Session) : Prop := ∃ q ∈ s.stops, q ≠ .launched

/-- Before the first teardown nothing was reported stopped; after it nothing of the
session is left and no start task is live. -/
structure Settled (s : Session) : Prop where
  unsent : ¬ TornDown s → .stopped ∉ s.posts
  quiet : TornDown s → s.container = none ∧ s.active = none ∧ ∀ p ∈ s.starts, p.live = false
  order : ActivatesFirst s.posts
  noReconcile : s.reconciles = []

theorem settled_initial (container : Option Container) : Settled (initial container) where
  unsent _ h := nomatch h
  quiet := fun ⟨_, h, _⟩ => nomatch h
  order := List.Pairwise.nil
  noReconcile := rfl

theorem Settled.not_tornDown {s : Session} (h : Settled s) {p : StartPhase} (hp : p ∈ s.starts)
    (hl : p.live = true) : ¬ TornDown s := fun ht => by
  have hdead := (h.quiet ht).2.2 p hp
  rw [hl] at hdead
  cases hdead

theorem Settled.of_live {s s' : Session} (h : Settled s) {p : StartPhase} (hp : p ∈ s.starts)
    (hl : p.live = true) (hstops : s'.stops = s.stops) (hposts : s'.posts = s.posts)
    (hrec : s'.reconciles = s.reconciles) : Settled s' := by
  have hnot : ¬ TornDown s' := by
    rw [TornDown, hstops]
    exact h.not_tornDown hp hl
  exact ⟨fun _ => hposts ▸ h.unsent (h.not_tornDown hp hl), fun ht => absurd ht hnot,
    hposts ▸ h.order, hrec ▸ h.noReconcile⟩

theorem activatesFirst_append {posts : List Post} {p : Post} :
    ActivatesFirst (posts ++ [p]) ↔
      ActivatesFirst posts ∧ (.stopped ∈ posts → p.isActivate = false) := by
  simp only [ActivatesFirst, List.pairwise_append, List.pairwise_singleton, List.mem_singleton,
    forall_eq, true_and]
  exact and_congr_right fun _ => ⟨fun h hm => h _ hm rfl, fun h a ha he => h (he ▸ ha)⟩

theorem settled_handleSessions {s : Session} (h : Settled s) {status : Status}
    (hd : Dispatched s (.heartbeat status)) : Settled (handleSessions s status) := by
  cases status with
  | starting =>
    have hstops : s.stops = [] := hd
    rw [handleSessions]
    split_ifs
    · exact ⟨h.unsent, fun ⟨q, hq, _⟩ => by simp [hstops] at hq, h.order, h.noReconcile⟩
    · exact h
  | active => exact hd.elim
  | stopping =>
    rw [handleSessions]
    split_ifs
    · exact h
    · have htd : TornDown { s with stopping := true, stops := s.stops ++ [.launched] } ↔
          TornDown s := by simp [TornDown, or_and_right]
      exact ⟨fun hn => h.unsent (htd.not.mp hn), fun ht => h.quiet (htd.mp ht), h.order,
        h.noReconcile⟩
  | other => exact h

theorem settled_create {s t : Session} (h : Settled s) {i : ℕ} {outcome : CreateOutcome}
    (ht : create s i outcome = some t) : Settled t := by
  unfold create at ht
  split at ht <;>
  · obtain ⟨starts, ha, rfl⟩ := Option.map_eq_some_iff.mp ht
    exact h.of_live (mem_of_advance ha) rfl rfl rfl rfl

theorem settled_resume {s : Session} (h : Settled s) {i : ℕ} {starts : List StartPhase}
    (ha : (advance s.starts i .created .locating).or (advance s.starts i .refused .done) =
      some starts) : Settled { s with starts := starts } := by
  rcases Option.or_eq_some_iff.mp ha with ha | ⟨-, ha⟩
  · exact h.of_live (mem_of_advance ha) rfl rfl rfl rfl
  · -- a refused task only ends
    refine ⟨h.unsent, fun ht => ?_, h.order, h.noReconcile⟩
    obtain ⟨hc, hact, hdead⟩ := h.quiet ht
    exact ⟨hc, hact, forall_mem_advance ha hdead rfl⟩

theorem settled_activate {s : Session} (h : Settled s) {i : ℕ} {starts : List StartPhase}
    (ha : advance s.starts i .activating .done = some starts) (sent : Bool) :
    Settled { s with
      starts := starts
      posts := if sent then s.posts ++ [.activate i] else s.posts } := by
  have hnot : ¬ TornDown s := h.not_tornDown (mem_of_advance ha) rfl
  have hun := h.unsent hnot
  cases sent with
  | false => exact h.of_live (mem_of_advance ha) rfl rfl rfl rfl
  | true =>
    refine ⟨fun _ => ?_, fun ht => absurd ht hnot, ?_, h.noReconcile⟩
    · simpa using hun
    · exact activatesFirst_append.mpr ⟨h.order, fun hm => absurd hm hun⟩

theorem settled_teardown {s t : Session} (h : Settled s) {j : ℕ}
    (hs : ∀ p ∈ s.starts, p.live = false) (ht : teardown s j .ok = some t) : Settled t := by
  obtain ⟨stops, ha, rfl⟩ := Option.map_eq_some_iff.mp ht
  have htorn : TornDown { s with
      stops := stops, active := none, container := none, stopping := false } :=
    ⟨.reporting, next_mem_of_advance ha, by decide⟩
  exact ⟨fun hn => absurd htorn hn, fun _ => ⟨rfl, rfl, hs⟩, h.order, h.noReconcile⟩

theorem settled_report {s : Session} (h : Settled s) {j : ℕ} {stops : List StopPhase}
    (ha : advance s.stops j .reporting .done = some stops) (sent : Bool) :
    Settled { s with
      stops := stops
      posts := if sent then s.posts ++ [.stopped] else s.posts } := by
  have hbefore : TornDown s := ⟨.reporting, mem_of_advance ha, by decide⟩
  have hafter : TornDown { s with
      stops := stops, posts := if sent then s.posts ++ [.stopped] else s.posts } :=
    ⟨.done, next_mem_of_advance ha, by decide⟩
  refine ⟨fun hn => absurd hafter hn, fun _ => h.quiet hbefore, ?_, h.noReconcile⟩
  cases sent with
  | false => exact h.order
  | true => exact activatesFirst_append.mpr ⟨h.order, fun _ => rfl⟩

theorem settled_step (s : Session) (i : Input) (t : Session) (h : Settled s)
    (hi : Dispatched s i ∧ StartsSettled s i) (ht : step s i = some t) : Settled t := by
  obtain ⟨hd, hq⟩ := hi
  cases i with
  | heartbeat status =>
    cases Option.some.inj ht
    exact settled_handleSessions h hd
  | begin i proceeds =>
    obtain ⟨starts, ha, rfl⟩ := Option.map_eq_some_iff.mp ht
    exact h.of_live (mem_of_advance ha) rfl rfl rfl rfl
  | create i outcome => exact settled_create h ht
  | resume i =>
    obtain ⟨starts, ha, rfl⟩ := Option.map_eq_some_iff.mp ht
    exact settled_resume h ha
  | register i =>
    obtain ⟨starts, ha, rfl⟩ := Option.map_eq_some_iff.mp ht
    exact h.of_live (mem_of_advance ha) rfl rfl rfl rfl
  | activate i sent =>
    obtain ⟨starts, ha, rfl⟩ := Option.map_eq_some_iff.mp ht
    exact settled_activate h ha sent
  | teardown j outcome =>
    cases show outcome = .ok from hd
    exact settled_teardown h hq ht
  | report j sent =>
    obtain ⟨stops, ha, rfl⟩ := Option.map_eq_some_iff.mp ht
    exact settled_report h ha sent
  | look k outcome =>
    obtain ⟨reconciles, ha, -⟩ := Option.map_eq_some_iff.mp ht
    exact absurd (mem_of_advance ha) (by simp [h.noReconcile])
  | conclude k =>
    simp only [step, conclude, h.noReconcile, List.getElem?_nil] at ht
    cases ht
  | reportLost k sent =>
    obtain ⟨reconciles, ha, -⟩ := Option.map_eq_some_iff.mp ht
    exact absurd (mem_of_advance ha) (by simp [h.noReconcile])
  | containerExits =>
    cases Option.some.inj ht
    refine ⟨h.unsent, fun htd => ?_, h.order, h.noReconcile⟩
    obtain ⟨hc, hact, hdead⟩ := h.quiet htd
    exact ⟨by simp [hc], hact, hdead⟩
  | restart => exact hd.elim

theorem nothingLeft_of_settled {s : Session} (h : Settled s) : NothingLeft s := by
  intro hsent _
  have htd : TornDown s := by
    by_contra hn
    exact h.unsent hn hsent
  obtain ⟨hc, hact, -⟩ := h.quiet htd
  exact ⟨hc, hact, h.order⟩

/-- In every run in which each teardown finds all start tasks settled, a session
that was reported stopped leaves nothing behind. -/
theorem nothingLeft_of_startsSettled {container : Option Container} {inputs : List Input}
    {s : Session} (hd : Run.Along step Dispatched (initial container) inputs)
    (hq : Run.Along step StartsSettled (initial container) inputs)
    (hrun : Run.exec step (initial container) inputs = some s) : NothingLeft s :=
  nothingLeft_of_settled (Run.exec_invariant settled_step (settled_initial container)
    (hd.and hq) hrun)

def plainRun : List Input :=
  [.heartbeat .starting, .begin 0 true, .create 0 .ok, .resume 0, .register 0, .activate 0 true,
    .heartbeat .stopping, .teardown 0 .ok, .report 0 true]

theorem nothingLeft_plainRun : ∃ s, Run.exec step (initial none) plainRun = some s ∧
    .stopped ∈ s.posts ∧ NothingLeft s :=
  ⟨_, rfl, by decide, nothingLeft_of_startsSettled (show Run.Along step Dispatched (initial none)
    plainRun by decide) (by decide) rfl⟩

def lateCreateRun : List Input :=
  [.heartbeat .starting, .begin 0 true, .heartbeat .stopping, .teardown 0 .ok, .report 0 true,
    .create 0 .ok, .resume 0, .register 0, .activate 0 true]

/-- The container, the entry and a late `activate` are left behind. -/
theorem not_nothingLeft_lateCreateRun : ∃ s,
    Run.Along step Dispatched (initial none) lateCreateRun ∧
    Run.exec step (initial none) lateCreateRun = some s ∧ ¬ NothingLeft s := by
  refine ⟨_, by decide, rfl, fun h => ?_⟩
  have hfinished : Finished (Session.mk (some ⟨some 0, true⟩) (some (.started 0)) false false
      [.done] [.done] [] [.stopped, .activate 0]) := ⟨by decide, by decide, by decide⟩
  exact absurd (h (by decide) hfinished).1 (by decide)

end HadcdAgent.Rental
