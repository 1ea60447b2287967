import HadcdAgent.Rental.Naming
import HadcdAgent.Rental.Session

/-!
# Overlapping heartbeats

The guard sets of `RentalSessionHandler` (`agent/rental_session_handler.py`) over
all session ids: calls of `handle_sessions` on whole lists of entries, with the tasks
that they launch in any order. A Docker event may change the container that bears a
session's name at any time, so each Docker call may end in every way.
-/

namespace HadcdAgent.Rental

open Lib

/-! ### The source -/

/-- `entry.get("status", "")`. -/
def statusOf (entry : List (Str × Json)) : Status :=
  match lookup ("status" : Str) entry with
  | some (.str s) =>
    if s = "starting".toList then .starting
    else if s = "active".toList then .active
    else if s = "stopping".toList then .stopping
    else .other
  | _ => .other

abbrev Sessions := Str → Session

def noSessions : Sessions := fun _ => initial none

def launchEntry (str : Json → Str) (h : Sessions) (entry : List (Str × Json)) : Sessions :=
  Function.update h (sessionIdOf str entry)
    (handleSessions (h (sessionIdOf str entry)) (statusOf entry))

/-- `handle_sessions` up to its `gather`. -/
def launchEntries (str : Json → Str) (h : Sessions) (entries : List (List (Str × Json))) :
    Sessions :=
  entries.foldl (launchEntry str) h

inductive OverlapInput where
  | handleSessions (entries : List (List (Str × Json)))
  | task (sessionId : Str) (i : Input)
  | docker (sessionId : Str) (container : Option Container)

/-- A segment of a task, or the container's exit. -/
def Input.isTask : Input → Bool
  | .heartbeat _ | .restart => false
  | _ => true

def overlapStep (str : Json → Str) (h : Sessions) : OverlapInput → Option Sessions
  | .handleSessions entries => some (launchEntries str h entries)
  | .task sessionId i =>
    if i.isTask then (step (h sessionId) i).map (Function.update h sessionId) else none
  | .docker sessionId container =>
    some (Function.update h sessionId { h sessionId with container := container })

/-! ### In flight -/

def StopPhase.inFlight : StopPhase → Bool
  | .launched | .reporting => true
  | .done => false

def StopPhase.tearsDown : StopPhase → Bool
  | .launched => true
  | .reporting | .done => false

def StopPhase.reports : StopPhase → Bool
  | .reporting => true
  | .launched | .done => false

def ReconcilePhase.inFlight : ReconcilePhase → Bool
  | .launched | .found | .missing | .failed | .reporting => true
  | .done => false

structure NoDuplicates (h : Sessions) : Prop where
  stops : ∀ sessionId, (h sessionId).stops.countP StopPhase.inFlight ≤ 1
  reconciles : ∀ sessionId, (h sessionId).reconciles.countP ReconcilePhase.inFlight ≤ 1
  idle : (∀ sessionId, Finished (h sessionId)) →
    ∀ sessionId, (h sessionId).stopping = false ∧ (h sessionId).reconciling = false

/-- No entry is `stopping` while a stop task of its session is in `_post_stopped`. -/
def NotReporting (str : Json → Str) (h : Sessions) : OverlapInput → Prop
  | .handleSessions entries => ∀ e ∈ entries, statusOf e = .stopping →
      .reporting ∉ (h (sessionIdOf str e)).stops
  | .task _ _ | .docker _ _ => True

/-! ### The guards -/

theorem countP_advance {α : Type} [DecidableEq α] {tasks tasks' : List α} {i : ℕ} {phase next : α}
    (h : advance tasks i phase next = some tasks') (p : α → Bool) :
    tasks'.countP p + (p phase).toNat = tasks.countP p + (p next).toNat := by
  obtain ⟨hi, rfl⟩ := advance_eq_some h
  obtain ⟨hlt, hat⟩ := List.getElem?_eq_some_iff.mp hi
  rw [List.countP_set hlt, hat]
  cases hp : p phase with
  | false => cases p next <;> simp
  | true =>
    have hpos : 0 < tasks.countP p := List.countP_pos_iff.mpr ⟨phase, List.mem_of_getElem? hi, hp⟩
    cases p next <;> simp <;> omega

theorem countP_inFlight (stops : List StopPhase) :
    stops.countP StopPhase.inFlight =
      stops.countP StopPhase.tearsDown + stops.countP StopPhase.reports := by
  induction stops with
  | nil => rfl
  | cons p ps ih =>
    simp only [List.countP_cons, ih]
    cases p with
    | launched =>
      simp [StopPhase.inFlight, StopPhase.tearsDown, StopPhase.reports]
      omega
    | reporting =>
      simp [StopPhase.inFlight, StopPhase.tearsDown, StopPhase.reports]
      omega
    | done => simp [StopPhase.inFlight, StopPhase.tearsDown, StopPhase.reports]

/-- The guards of a session say whether a stop task has still to tear down, and
whether a reconciliation is in flight. -/
structure Guarded (s : Session) : Prop where
  stopping : s.stops.countP StopPhase.tearsDown = s.stopping.toNat
  stops : s.stops.countP StopPhase.inFlight ≤ 1
  reconciling : s.reconciles.countP ReconcilePhase.inFlight = s.reconciling.toNat

theorem guarded_initial (container : Option Container) : Guarded (initial container) :=
  ⟨rfl, Nat.zero_le 1, rfl⟩

theorem Guarded.congr {s t : Session} (h : Guarded s) (h1 : t.stops = s.stops)
    (h2 : t.reconciles = s.reconciles) (h3 : t.stopping = s.stopping)
    (h4 : t.reconciling = s.reconciling) : Guarded t where
  stopping := by rw [h1, h3]; exact h.stopping
  stops := by rw [h1]; exact h.stops
  reconciling := by rw [h2, h4]; exact h.reconciling

theorem guarded_teardown {s t : Session} (h : Guarded s) {j : ℕ} {outcome : DockerOutcome}
    (ht : teardown s j outcome = some t) : Guarded t := by
  obtain ⟨stops, ha, rfl⟩ := Option.map_eq_some_iff.mp ht
  have hdown : stops.countP StopPhase.tearsDown + 1 = s.stops.countP StopPhase.tearsDown + 0 :=
    countP_advance ha StopPhase.tearsDown
  have hflight : stops.countP StopPhase.inFlight + 1 = s.stops.countP StopPhase.inFlight + 1 :=
    countP_advance ha StopPhase.inFlight
  have hguard := h.stopping
  have hone := h.stops
  have hbit := s.stopping.toNat_le
  refine ⟨?_, ?_, h.reconciling⟩
  · change stops.countP StopPhase.tearsDown = 0
    omega
  · change stops.countP StopPhase.inFlight ≤ 1
    omega

theorem guarded_report {s : Session} (h : Guarded s) {j : ℕ} {stops : List StopPhase}
    (ha : advance s.stops j .reporting .done = some stops) (posts : List Post) :
    Guarded { s with stops := stops, posts := posts } := by
  have hdown : stops.countP StopPhase.tearsDown + 0 = s.stops.countP StopPhase.tearsDown + 0 :=
    countP_advance ha StopPhase.tearsDown
  have hflight : stops.countP StopPhase.inFlight + 1 = s.stops.countP StopPhase.inFlight + 0 :=
    countP_advance ha StopPhase.inFlight
  have hguard := h.stopping
  have hone := h.stops
  refine ⟨?_, ?_, h.reconciling⟩
  · change stops.countP StopPhase.tearsDown = s.stopping.toNat
    omega
  · change stops.countP StopPhase.inFlight ≤ 1
    omega

theorem guarded_goesOn {s t : Session} (h : Guarded s) {k : ℕ} {phase next : ReconcilePhase}
    (ha : advance s.reconciles k phase next = some t.reconciles) (hphase : phase.inFlight = true)
    (hnext : next.inFlight = true) (h1 : t.stops = s.stops) (h2 : t.stopping = s.stopping)
    (h3 : t.reconciling = s.reconciling) : Guarded t := by
  have hflight := countP_advance ha ReconcilePhase.inFlight
  rw [hphase, hnext] at hflight
  have hguard := h.reconciling
  refine ⟨by rw [h1, h2]; exact h.stopping, by rw [h1]; exact h.stops, ?_⟩
  rw [h3]
  omega

theorem guarded_ends {s t : Session} (h : Guarded s) {k : ℕ} {phase : ReconcilePhase}
    (ha : advance s.reconciles k phase .done = some t.reconciles) (hphase : phase.inFlight = true)
    (h1 : t.stops = s.stops) (h2 : t.stopping = s.stopping) (h3 : t.reconciling = false) :
    Guarded t := by
  have hflight : t.reconciles.countP ReconcilePhase.inFlight + phase.inFlight.toNat =
      s.reconciles.countP ReconcilePhase.inFlight + 0 := countP_advance ha ReconcilePhase.inFlight
  rw [hphase, Bool.toNat_true] at hflight
  have hguard := h.reconciling
  have hbit := s.reconciling.toNat_le
  refine ⟨by rw [h1, h2]; exact h.stopping, by rw [h1]; exact h.stops, ?_⟩
  rw [h3, Bool.toNat_false]
  omega

theorem guarded_conclude {s t : Session} (h : Guarded s) {k : ℕ} (ht : conclude s k = some t) :
    Guarded t := by
  cases hk : s.reconciles[k]? with
  | none => simp [conclude, hk] at ht
  | some phase =>
    cases phase with
    | found =>
      simp only [conclude, hk, Option.some.injEq] at ht
      subst ht
      exact guarded_ends h (advance_of_getElem? hk .done) rfl rfl rfl rfl
    | missing =>
      simp only [conclude, hk, Option.some.injEq] at ht
      subst ht
      exact guarded_goesOn h (advance_of_getElem? hk .reporting) rfl rfl rfl rfl rfl
    | failed =>
      simp only [conclude, hk, Option.some.injEq] at ht
      subst ht
      exact guarded_ends h (advance_of_getElem? hk .done) rfl rfl rfl rfl
    | _ => simp [conclude, hk] at ht

theorem guarded_step {s t : Session} (h : Guarded s) {i : Input} (hi : i.isTask = true)
    (ht : step s i = some t) : Guarded t := by
  cases i with
  | heartbeat status => cases hi
  | restart => cases hi
  | begin i proceeds =>
    obtain ⟨starts, -, rfl⟩ := Option.map_eq_some_iff.mp ht
    exact h.congr rfl rfl rfl rfl
  | create i outcome =>
    change create s i outcome = some t at ht
    unfold create at ht
    split at ht <;>
    · obtain ⟨starts, -, rfl⟩ := Option.map_eq_some_iff.mp ht
      exact h.congr rfl rfl rfl rfl
  | resume i =>
    obtain ⟨starts, -, rfl⟩ := Option.map_eq_some_iff.mp ht
    exact h.congr rfl rfl rfl rfl
  | register i =>
    obtain ⟨starts, -, rfl⟩ := Option.map_eq_some_iff.mp ht
    exact h.congr rfl rfl rfl rfl
  | activate i sent =>
    obtain ⟨starts, -, rfl⟩ := Option.map_eq_some_iff.mp ht
    exact h.congr rfl rfl rfl rfl
  | teardown j outcome => exact guarded_teardown h ht
  | report j sent =>
    obtain ⟨stops, ha, rfl⟩ := Option.map_eq_some_iff.mp ht
    exact guarded_report h ha _
  | look k outcome =>
    obtain ⟨reconciles, ha, rfl⟩ := Option.map_eq_some_iff.mp ht
    refine guarded_goesOn h ha rfl ?_ rfl rfl rfl
    split <;> rfl
  | conclude k => exact guarded_conclude h ht
  | reportLost k sent =>
    obtain ⟨reconciles, ha, rfl⟩ := Option.map_eq_some_iff.mp ht
    exact guarded_ends h ha rfl rfl rfl rfl
  | containerExits =>
    cases ht
    exact h.congr rfl rfl rfl rfl

theorem guarded_handleSessions {s : Session} (h : Guarded s) {status : Status}
    (hr : status = .stopping → .reporting ∉ s.stops) : Guarded (handleSessions s status) := by
  have hguard := h.stopping
  have hreconciling := h.reconciling
  cases status with
  | starting =>
    rw [handleSessions]
    split_ifs
    · exact h.congr rfl rfl rfl rfl
    · exact h
  | active =>
    rw [handleSessions]
    split_ifs with hin
    · exact h
    · rw [Bool.eq_false_iff.mpr hin, Bool.toNat_false] at hreconciling
      refine ⟨h.stopping, h.stops, ?_⟩
      rw [List.countP_append, hreconciling]
      rfl
  | stopping =>
    rw [handleSessions]
    split_ifs with hin
    · exact h
    · rw [Bool.eq_false_iff.mpr hin, Bool.toNat_false] at hguard
      have hquiet : s.stops.countP StopPhase.reports = 0 := by
        rw [List.countP_eq_zero]
        intro p hp hreports
        cases p with
        | reporting => exact hr rfl hp
        | _ => cases hreports
      have hflight := countP_inFlight s.stops
      refine ⟨?_, ?_, h.reconciling⟩
      · rw [List.countP_append, hguard]
        rfl
      · rw [List.countP_append, hflight, hguard, hquiet]
        exact le_rfl
  | other => exact h

/-! ### What a list of entries launches -/

/-- No task has gone, and a guard is up only with its task. -/
structure Grown (s t : Session) : Prop where
  stops : ∀ p ∈ s.stops, p ∈ t.stops
  kept : s.stopping = true → t.stopping = true
  raised : t.stopping = true → s.stopping = true ∨ .launched ∈ t.stops

theorem Grown.refl (s : Session) : Grown s s := ⟨fun _ hp => hp, fun h => h, Or.inl⟩

theorem Grown.trans {s t u : Session} (h : Grown s t) (h' : Grown t u) : Grown s u := by
  refine ⟨fun p hp => h'.stops p (h.stops p hp), fun hs => h'.kept (h.kept hs), ?_⟩
  intro hu
  rcases h'.raised hu with ht | hl
  · rcases h.raised ht with hs | hl
    · exact Or.inl hs
    · exact Or.inr (h'.stops _ hl)
  · exact Or.inr hl

theorem grown_handleSessions (s : Session) (status : Status) : Grown s (handleSessions s status) := by
  cases status with
  | starting =>
    rw [handleSessions]
    split_ifs <;> exact ⟨fun _ hp => hp, fun h => h, Or.inl⟩
  | active =>
    rw [handleSessions]
    split_ifs <;> exact ⟨fun _ hp => hp, fun h => h, Or.inl⟩
  | stopping =>
    rw [handleSessions]
    split_ifs
    · exact Grown.refl s
    · exact ⟨fun p hp => List.mem_append_left _ hp, fun _ => rfl, fun _ => Or.inr (by simp)⟩
  | other => exact Grown.refl s

theorem stopping_handleSessions (s : Session) : (handleSessions s .stopping).stopping = true := by
  rw [handleSessions]
  split_ifs with h
  · exact h
  · rfl

section Entries

variable {str : Json → Str}

theorem launchEntry_self (h : Sessions) (e : List (Str × Json)) :
    launchEntry str h e (sessionIdOf str e) =
      handleSessions (h (sessionIdOf str e)) (statusOf e) :=
  Function.update_self ..

theorem launchEntry_of_ne {h : Sessions} {e : List (Str × Json)} {sessionId : Str}
    (hne : sessionId ≠ sessionIdOf str e) : launchEntry str h e sessionId = h sessionId :=
  Function.update_of_ne hne ..

theorem grown_launchEntry (h : Sessions) (e : List (Str × Json)) (sessionId : Str) :
    Grown (h sessionId) (launchEntry str h e sessionId) := by
  by_cases hs : sessionId = sessionIdOf str e
  · subst hs
    rw [launchEntry_self]
    exact grown_handleSessions _ _
  · rw [launchEntry_of_ne hs]
    exact Grown.refl _

theorem grown_launchEntries (h : Sessions) (entries : List (List (Str × Json))) (sessionId : Str) :
    Grown (h sessionId) (launchEntries str h entries sessionId) := by
  induction entries generalizing h with
  | nil => exact Grown.refl _
  | cons e es ih => exact (grown_launchEntry h e sessionId).trans (ih (launchEntry str h e))

theorem stopping_launchEntries {h : Sessions} {entries : List (List (Str × Json))}
    {e : List (Str × Json)} (he : e ∈ entries) (hs : statusOf e = .stopping) :
    (launchEntries str h entries (sessionIdOf str e)).stopping = true := by
  induction entries generalizing h with
  | nil => cases he
  | cons x xs ih =>
    rcases List.mem_cons.mp he with rfl | hmem
    · have hup : (launchEntry str h e (sessionIdOf str e)).stopping = true := by
        rw [launchEntry_self, hs]
        exact stopping_handleSessions _
      exact (grown_launchEntries (launchEntry str h e) xs _).kept hup
    · exact ih hmem

theorem reporting_launchEntry {h : Sessions} {e : List (Str × Json)} {sessionId : Str}
    (hr : .reporting ∉ (h sessionId).stops) : .reporting ∉ (launchEntry str h e sessionId).stops := by
  by_cases hs : sessionId = sessionIdOf str e
  · subst hs
    rw [launchEntry_self]
    unfold handleSessions
    cases statusOf e with
    | stopping =>
      dsimp only
      split_ifs
      · exact hr
      · simpa using hr
    | other => exact hr
    | _ =>
      dsimp only
      split_ifs <;> exact hr
  · rw [launchEntry_of_ne hs]
    exact hr

theorem guarded_launchEntries {h : Sessions} (hg : ∀ sessionId, Guarded (h sessionId))
    {entries : List (List (Str × Json))}
    (hr : NotReporting str h (.handleSessions entries)) (sessionId : Str) :
    Guarded (launchEntries str h entries sessionId) := by
  induction entries generalizing h with
  | nil => exact hg sessionId
  | cons e es ih =>
    refine ih ?_ ?_
    · intro other
      by_cases hs : other = sessionIdOf str e
      · subst hs
        rw [launchEntry_self]
        exact guarded_handleSessions (hg _) (hr e (List.mem_cons_self ..))
      · rw [launchEntry_of_ne hs]
        exact hg other
    · intro e' he' hs'
      exact reporting_launchEntry (hr e' (List.mem_cons_of_mem e he') hs')

end Entries

/-! ### Runs -/

theorem noDuplicates_of_guarded {h : Sessions} (hg : ∀ sessionId, Guarded (h sessionId)) :
    NoDuplicates h where
  stops := fun sessionId => (hg sessionId).stops
  reconciles := by
    intro sessionId
    rw [(hg sessionId).reconciling]
    exact Bool.toNat_le _
  idle := by
    intro hfinished sessionId
    obtain ⟨-, hstops, hreconciles⟩ := hfinished sessionId
    have hdown : (h sessionId).stops.countP StopPhase.tearsDown = 0 := by
      rw [List.countP_eq_zero]
      intro p hp ht
      rw [hstops p hp] at ht
      cases ht
    have hflight : (h sessionId).reconciles.countP ReconcilePhase.inFlight = 0 := by
      rw [List.countP_eq_zero]
      intro p hp ht
      rw [hreconciles p hp] at ht
      cases ht
    have h1 := (hg sessionId).stopping
    have h2 := (hg sessionId).reconciling
    rw [hdown] at h1
    rw [hflight] at h2
    constructor
    · cases hb : (h sessionId).stopping with
      | false => rfl
      | true => simp [hb] at h1
    · cases hb : (h sessionId).reconciling with
      | false => rfl
      | true => simp [hb] at h2

theorem guarded_overlapStep {str : Json → Str} {h : Sessions} {i : OverlapInput} {h' : Sessions}
    (hg : ∀ sessionId, Guarded (h sessionId)) (hr : NotReporting str h i)
    (hstep : overlapStep str h i = some h') (sessionId : Str) : Guarded (h' sessionId) := by
  cases i with
  | handleSessions entries =>
    cases hstep
    exact guarded_launchEntries hg hr sessionId
  | task sid i =>
    obtain ⟨hi, hstep⟩ := Option.ite_none_right_eq_some.mp hstep
    obtain ⟨s, hs, rfl⟩ := Option.map_eq_some_iff.mp hstep
    by_cases hsid : sessionId = sid
    · subst hsid
      rw [Function.update_self]
      exact guarded_step (hg sessionId) hi hs
    · rw [Function.update_of_ne hsid]
      exact hg sessionId
  | docker sid container =>
    cases hstep
    by_cases hsid : sessionId = sid
    · subst hsid
      rw [Function.update_self]
      exact (hg sessionId).congr rfl rfl rfl rfl
    · rw [Function.update_of_ne hsid]
      exact hg sessionId

/-- A second stop task is launched as soon as the guard is down. -/
theorem notReporting_of_noDuplicates {str : Json → Str} {h : Sessions}
    (hg : ∀ sessionId, Guarded (h sessionId)) {i : OverlapInput}
    (hn : ∀ h', overlapStep str h i = some h' → NoDuplicates h') : NotReporting str h i := by
  cases i with
  | task sid i => trivial
  | docker sid container => trivial
  | handleSessions entries =>
    intro e he hs hreporting
    have hone := (hn _ rfl).stops (sessionIdOf str e)
    have hgrown : Grown (h (sessionIdOf str e))
        (launchEntries str h entries (sessionIdOf str e)) := grown_launchEntries h entries _
    have hcount := countP_inFlight (h (sessionIdOf str e)).stops
    have hbefore : 0 < (h (sessionIdOf str e)).stops.countP StopPhase.reports :=
      List.countP_pos_iff.mpr ⟨_, hreporting, rfl⟩
    have hguard := (hg (sessionIdOf str e)).stopping
    have hmax := (hg (sessionIdOf str e)).stops
    have hlaunched : .launched ∈ (launchEntries str h entries (sessionIdOf str e)).stops := by
      rcases hgrown.raised (stopping_launchEntries he hs) with hup | hl
      · rw [hup, Bool.toNat_true] at hguard
        omega
      · exact hl
    have hdown : 0 < (launchEntries str h entries (sessionIdOf str e)).stops.countP
        StopPhase.tearsDown := List.countP_pos_iff.mpr ⟨_, hlaunched, rfl⟩
    have hreports : 0 < (launchEntries str h entries (sessionIdOf str e)).stops.countP
        StopPhase.reports := List.countP_pos_iff.mpr ⟨_, hgrown.stops _ hreporting, rfl⟩
    rw [countP_inFlight] at hone
    omega

/-- In every interleaving nothing is done twice at a time exactly when no session is
listed as stopping while its stop task reports. -/
theorem noDuplicates_iff (str : Json → Str) (inputs : List OverlapInput) :
    Run.AlongSteps (overlapStep str) (fun _ _ h => NoDuplicates h) noSessions inputs ↔
      Run.Along (overlapStep str) (NotReporting str) noSessions inputs := by
  have hkeep : ∀ h i h', (∀ sessionId, Guarded (h sessionId)) → NotReporting str h i →
      overlapStep str h i = some h' → (∀ sessionId, Guarded (h' sessionId)) ∧ NoDuplicates h' := by
    intro h i h' hg hr hstep
    have hg' := guarded_overlapStep hg hr hstep
    exact ⟨hg', noDuplicates_of_guarded hg'⟩
  have h0 : ∀ sessionId, Guarded (noSessions sessionId) := fun _ => guarded_initial none
  exact Run.alongSteps_iff_guard hkeep (fun h i hg hn => notReporting_of_noDuplicates hg hn) h0

def stoppingEntry : List (Str × Json) := [("session_id", .str "3f2a9c71"), ("status", .str "stopping")]

/-- The second heartbeat comes while the first stop task is in its POST. -/
theorem not_noDuplicates_reporting :
    ¬ Run.AlongSteps (overlapStep fun _ => []) (fun _ _ h => NoDuplicates h) noSessions
      ([.handleSessions [stoppingEntry], .task "3f2a9c71".toList (.teardown 0 .ok)] ++
        [.handleSessions [stoppingEntry]]) := by
  intro h
  have hlast := h.at rfl _ rfl
  exact absurd (hlast.stops "3f2a9c71".toList) (by decide)

end HadcdAgent.Rental
