import HadcdAgent.Rental.Naming
import HadcdAgent.Rental.Session

/-!
# Who activates a session

`_start_session` (`agent/rental_session_handler.py`) is the only sender of the
activate POST, and a start task sends it only after its own `containers.run` has made
the container. Docker refuses the name to every later task: so there is never a
second activation, and none that repairs the first when that was lost.
-/

namespace HadcdAgent.Rental

open Lib

/-! ### Start tasks and the container -/

/-- The task has made the container and has not yet ended its activation. -/
def StartPhase.carries : StartPhase → Bool
  | .created | .locating | .activating => true
  | .launched | .creating | .refused | .done => false

def Session.creator (s : Session) : Option ℕ := s.container.bind Container.creator

theorem forall_advance {Q : ℕ → StartPhase → Prop} {starts starts' : List StartPhase} {i : ℕ}
    {phase next : StartPhase} (h : advance starts i phase next = some starts')
    (hold : ∀ j p, starts[j]? = some p → Q j p) (hnext : Q i next) :
    ∀ j p, starts'[j]? = some p → Q j p := by
  obtain ⟨-, rfl⟩ := advance_eq_some h
  intro j p hp
  rw [List.getElem?_set] at hp
  split_ifs at hp with heq hlt
  · cases hp
    exact heq ▸ hnext
  · exact hold j p hp

theorem forall_launched {Q : ℕ → StartPhase → Prop} {starts : List StartPhase}
    (hold : ∀ j p, starts[j]? = some p → Q j p) (hnew : ∀ j, Q j .launched) :
    ∀ j p, (starts ++ [StartPhase.launched])[j]? = some p → Q j p := by
  intro j p hp
  rw [List.getElem?_append] at hp
  split_ifs at hp with hlt
  · exact hold j p hp
  · rw [List.getElem?_singleton] at hp
    split_ifs at hp
    cases hp
    exact hnew j

theorem getElem?_advance_of_ne {starts starts' : List StartPhase} {i j : ℕ}
    {phase next p : StartPhase} (h : advance starts i phase next = some starts')
    (hp : starts[j]? = some p) (hne : p ≠ phase) : starts'[j]? = some p := by
  obtain ⟨hi, rfl⟩ := advance_eq_some h
  have hij : i ≠ j := by
    rintro rfl
    rw [hi] at hp
    exact hne (Option.some.inj hp).symm
  rw [List.getElem?_set_ne hij]
  exact hp

theorem handleSessions_eq (s : Session) (status : Status) :
    (handleSessions s status).container = s.container ∧
    (handleSessions s status).posts = s.posts ∧
    (handleSessions s status).active = s.active ∧
    ((handleSessions s status).starts = s.starts ∨
      (handleSessions s status).starts = s.starts ++ [.launched]) := by
  cases status with
  | other => exact ⟨rfl, rfl, rfl, Or.inl rfl⟩
  | starting =>
    rw [handleSessions]
    split_ifs
    · exact ⟨rfl, rfl, rfl, Or.inr rfl⟩
    · exact ⟨rfl, rfl, rfl, Or.inl rfl⟩
  | _ =>
    rw [handleSessions]
    split_ifs
    · exact ⟨rfl, rfl, rfl, Or.inl rfl⟩
    · exact ⟨rfl, rfl, rfl, Or.inl rfl⟩

/-- `containers.run` makes the container of its task, or leaves all but the phase
of its task as it was. -/
theorem create_spec {s t : Session} {i : ℕ} {outcome : CreateOutcome}
    (h : create s i outcome = some t) :
    (∃ starts, advance s.starts i .creating .created = some starts ∧ s.container = none ∧
      t = { s with starts := starts, container := some ⟨some i, true⟩ }) ∨
    (∃ starts, advance s.starts i .creating .refused = some starts ∧ s.container = none ∧
      t = { s with starts := starts, container := some ⟨some i, false⟩ }) ∨
    ∃ starts, advance s.starts i .creating .refused = some starts ∧
      t = { s with starts := starts } := by
  unfold create at h
  split at h
  case h_1 hnone =>
    obtain ⟨starts, ha, rfl⟩ := Option.map_eq_some_iff.mp h
    exact Or.inl ⟨starts, ha, hnone, rfl⟩
  case h_2 hnone =>
    obtain ⟨starts, ha, rfl⟩ := Option.map_eq_some_iff.mp h
    exact Or.inr (Or.inl ⟨starts, ha, hnone, rfl⟩)
  case h_3 =>
    obtain ⟨starts, ha, rfl⟩ := Option.map_eq_some_iff.mp h
    exact Or.inr (Or.inr ⟨starts, ha, rfl⟩)

/-! ### A lost activation -/

def Input.keepsContainer : Input → Bool
  | .teardown _ .ok => false
  | _ => true

/-- There is a container, and none of the tasks `P` is one that made it and has
still to activate it. -/
structure Barren (P : ℕ → Prop) (s : Session) : Prop where
  present : s.container ≠ none
  idle : ∀ i p, s.starts[i]? = some p → P i → p.carries = false

def Silent (P : ℕ → Prop) (s t : Session) : Prop :=
  ∀ i, P i → t.posts.count (.activate i) = s.posts.count (.activate i)

section Barren

variable {P : ℕ → Prop} {s t : Session}

theorem Barren.of_advance (h : Barren P s) {i : ℕ} {phase next : StartPhase}
    {starts : List StartPhase} (ha : advance s.starts i phase next = some starts)
    (hnext : next.carries = true → phase.carries = true) :
    ∀ j p, starts[j]? = some p → P j → p.carries = false := by
  refine forall_advance ha h.idle ?_
  intro hi
  have hphase := h.idle i phase (advance_eq_some ha).1 hi
  by_contra hcarries
  rw [Bool.not_eq_false] at hcarries
  rw [hnext hcarries] at hphase
  cases hphase

theorem count_activate_append {posts : List Post} {p : Post} {i : ℕ} (h : p ≠ .activate i) :
    (posts ++ [p]).count (.activate i) = posts.count (.activate i) := by
  rw [List.count_append, List.count_singleton, if_neg (by simpa using h), add_zero]

theorem barren_handleSessions (h : Barren P s) (status : Status) :
    Barren P (handleSessions s status) := by
  obtain ⟨hcontainer, -, -, hstarts⟩ := handleSessions_eq s status
  refine ⟨by rw [hcontainer]; exact h.present, ?_⟩
  rcases hstarts with hsame | hnew
  · rw [hsame]
    exact h.idle
  · rw [hnew]
    exact forall_launched h.idle fun _ _ => rfl

theorem barren_step {i : Input} (h : Barren P s) (hi : i.keepsContainer = true)
    (ht : step s i = some t) : Barren P t ∧ Silent P s t := by
  cases i with
  | heartbeat status =>
    cases ht
    refine ⟨barren_handleSessions h status, fun j _ => ?_⟩
    rw [(handleSessions_eq s status).2.1]
  | begin i proceeds =>
    obtain ⟨starts, ha, rfl⟩ := Option.map_eq_some_iff.mp ht
    exact ⟨⟨h.present, h.of_advance ha (by cases proceeds <;> decide)⟩, fun _ _ => rfl⟩
  | create i outcome =>
    rcases create_spec ht with ⟨_, _, hnone, _⟩ | ⟨_, _, hnone, _⟩ | ⟨starts, ha, rfl⟩
    · exact absurd hnone h.present
    · exact absurd hnone h.present
    · exact ⟨⟨h.present, h.of_advance ha (by decide)⟩, fun _ _ => rfl⟩
  | resume i =>
    obtain ⟨starts, ha, rfl⟩ := Option.map_eq_some_iff.mp ht
    rcases Option.or_eq_some_iff.mp ha with ha | ⟨-, ha⟩
    · exact ⟨⟨h.present, h.of_advance ha (by decide)⟩, fun _ _ => rfl⟩
    · exact ⟨⟨h.present, h.of_advance ha (by decide)⟩, fun _ _ => rfl⟩
  | register i =>
    obtain ⟨starts, ha, rfl⟩ := Option.map_eq_some_iff.mp ht
    exact ⟨⟨h.present, h.of_advance ha (by decide)⟩, fun _ _ => rfl⟩
  | activate i sent =>
    obtain ⟨starts, ha, rfl⟩ := Option.map_eq_some_iff.mp ht
    refine ⟨⟨h.present, h.of_advance ha (by decide)⟩, ?_⟩
    intro j hj
    cases sent with
    | false => rfl
    | true =>
      refine count_activate_append ?_
      intro heq
      cases heq
      have hidle := h.idle i _ (advance_eq_some ha).1 hj
      cases hidle
  | teardown j outcome =>
    cases outcome with
    | ok => cases hi
    | raises =>
      obtain ⟨stops, -, rfl⟩ := Option.map_eq_some_iff.mp ht
      exact ⟨⟨h.present, h.idle⟩, fun _ _ => rfl⟩
  | report j sent =>
    obtain ⟨stops, -, rfl⟩ := Option.map_eq_some_iff.mp ht
    refine ⟨⟨h.present, h.idle⟩, ?_⟩
    intro i _
    cases sent with
    | false => rfl
    | true => exact count_activate_append fun h => (by cases h)
  | look k outcome =>
    obtain ⟨reconciles, -, rfl⟩ := Option.map_eq_some_iff.mp ht
    exact ⟨⟨h.present, h.idle⟩, fun _ _ => rfl⟩
  | conclude k =>
    simp only [step, conclude] at ht
    split at ht
    case h_4 => cases ht
    all_goals
      cases ht
      exact ⟨⟨h.present, h.idle⟩, fun _ _ => rfl⟩
  | reportLost k sent =>
    obtain ⟨reconciles, -, rfl⟩ := Option.map_eq_some_iff.mp ht
    refine ⟨⟨h.present, h.idle⟩, ?_⟩
    intro i _
    cases sent with
    | false => rfl
    | true => exact count_activate_append fun h => (by cases h)
  | containerExits =>
    cases ht
    refine ⟨⟨?_, h.idle⟩, fun _ _ => rfl⟩
    have hpresent := h.present
    simpa using hpresent
  | restart =>
    cases ht
    exact ⟨⟨h.present, fun _ _ hp => by cases hp⟩, fun _ _ => rfl⟩

theorem silent_of_barren {inputs : List Input} (h : Barren P s)
    (hi : ∀ i ∈ inputs, i.keepsContainer = true) (ht : Run.exec step s inputs = some t) :
    Silent P s t := by
  induction inputs generalizing s with
  | nil =>
    cases ht
    exact fun _ _ => rfl
  | cons i is ih =>
    obtain ⟨u, hu, hrest⟩ := Run.exec_cons_eq_some ht
    obtain ⟨hbarren, hsilent⟩ := barren_step h (hi i (List.mem_cons_self ..)) hu
    have hafter := ih hbarren (fun k hk => hi k (List.mem_cons_of_mem i hk)) hrest
    exact fun j hj => (hafter j hj).trans (hsilent j hj)

end Barren

/-- The start tasks that a heartbeat and those after it launch never activate a
container that was there already. -/
theorem silent_of_container {s : Session} (h : s.container ≠ none) {inputs : List Input}
    (hi : ∀ i ∈ inputs, i.keepsContainer = true) {t : Session}
    (ht : Run.exec step s (.heartbeat .starting :: inputs) = some t) :
    Silent (fun i => s.starts.length ≤ i) s t := by
  have hnew : ∀ i p, s.starts[i]? = some p → s.starts.length ≤ i → p.carries = false := by
    intro i p hp hle
    rw [List.getElem?_eq_none hle] at hp
    cases hp
  exact silent_of_barren ⟨h, hnew⟩ (List.forall_mem_cons.mpr ⟨rfl, hi⟩) ht

/-! ### The start tasks come to their end -/

/-- There is a start task that comes to its activate POST, lost or not, in whatever order
the process goes on from `s` until all its start tasks have ended. -/
def ActivationFollows (s : Session) : Prop :=
  ∃ i, ∀ inputs t, Input.restart ∉ inputs → Run.exec step s inputs = some t →
    (∀ p ∈ t.starts, p = .done) → ∃ sent, Input.activate i sent ∈ inputs

theorem getElem?_handleSessions {s : Session} {i : ℕ} {p : StartPhase}
    (hp : s.starts[i]? = some p) (status : Status) :
    (handleSessions s status).starts[i]? = some p := by
  obtain ⟨-, -, -, hsame | hnew⟩ := handleSessions_eq s status
  · rw [hsame]
    exact hp
  · rw [hnew, List.getElem?_append_left (List.getElem?_eq_some_iff.mp hp).1]
    exact hp

/-- A start task moves on, another one's phase or its own. -/
theorem carries_of_advance {starts starts' : List StartPhase} {i j : ℕ} {phase next p : StartPhase}
    (h : advance starts j phase next = some starts') (hp : starts[i]? = some p)
    (hc : p.carries = true) (hnext : phase.carries = true → next.carries = true) :
    ∃ q, starts'[i]? = some q ∧ q.carries = true := by
  by_cases heq : p = phase
  · subst heq
    obtain ⟨hj, rfl⟩ := advance_eq_some h
    by_cases hij : j = i
    · subst hij
      exact ⟨next, by rw [List.getElem?_set_self (List.getElem?_eq_some_iff.mp hj).1], hnext hc⟩
    · exact ⟨p, by rw [List.getElem?_set_ne hij]; exact hp, hc⟩
  · exact ⟨p, getElem?_advance_of_ne h hp heq, hc⟩

/-- Only its own activation takes a carrying task to its end. -/
theorem carries_step {s t : Session} {x : Input} {i : ℕ} {p : StartPhase}
    (hp : s.starts[i]? = some p) (hc : p.carries = true) (ht : step s x = some t)
    (hrestart : x ≠ .restart) (hactivate : ∀ sent, x ≠ .activate i sent) :
    ∃ q, t.starts[i]? = some q ∧ q.carries = true := by
  cases x with
  | heartbeat status =>
    cases ht
    exact ⟨p, getElem?_handleSessions hp status, hc⟩
  | begin j proceeds =>
    obtain ⟨starts, ha, rfl⟩ := Option.map_eq_some_iff.mp ht
    exact carries_of_advance ha hp hc fun h => Bool.noConfusion h
  | create j outcome =>
    rcases create_spec ht with ⟨starts, ha, -, rfl⟩ | ⟨starts, ha, -, rfl⟩ | ⟨starts, ha, rfl⟩
    · exact carries_of_advance ha hp hc (by decide)
    · exact carries_of_advance ha hp hc (by decide)
    · exact carries_of_advance ha hp hc (by decide)
  | resume j =>
    obtain ⟨starts, ha, rfl⟩ := Option.map_eq_some_iff.mp ht
    rcases Option.or_eq_some_iff.mp ha with ha | ⟨-, ha⟩
    · exact carries_of_advance ha hp hc (by decide)
    · exact carries_of_advance ha hp hc (by decide)
  | register j =>
    obtain ⟨starts, ha, rfl⟩ := Option.map_eq_some_iff.mp ht
    exact carries_of_advance ha hp hc (by decide)
  | activate j sent =>
    obtain ⟨starts, ha, rfl⟩ := Option.map_eq_some_iff.mp ht
    obtain ⟨-, rfl⟩ := advance_eq_some ha
    have hij : j ≠ i := by
      rintro rfl
      exact hactivate sent rfl
    exact ⟨p, (List.getElem?_set_ne hij).trans hp, hc⟩
  | teardown j outcome =>
    obtain ⟨stops, -, rfl⟩ := Option.map_eq_some_iff.mp ht
    exact ⟨p, hp, hc⟩
  | report j sent =>
    obtain ⟨stops, -, rfl⟩ := Option.map_eq_some_iff.mp ht
    exact ⟨p, hp, hc⟩
  | look k outcome =>
    obtain ⟨reconciles, -, rfl⟩ := Option.map_eq_some_iff.mp ht
    exact ⟨p, hp, hc⟩
  | conclude k =>
    simp only [step, conclude] at ht
    split at ht
    case h_4 => cases ht
    all_goals
      cases ht
      exact ⟨p, hp, hc⟩
  | reportLost k sent =>
    obtain ⟨reconciles, -, rfl⟩ := Option.map_eq_some_iff.mp ht
    exact ⟨p, hp, hc⟩
  | containerExits =>
    cases ht
    exact ⟨p, hp, hc⟩
  | restart => exact absurd rfl hrestart

/-- So a carrying task that has ended in a run has come to its POST there. -/
theorem activate_mem_of_carries {s t : Session} {i : ℕ} {p : StartPhase} {inputs : List Input}
    (hp : s.starts[i]? = some p) (hc : p.carries = true) (hrestart : Input.restart ∉ inputs)
    (ht : Run.exec step s inputs = some t) (hdone : ∀ p ∈ t.starts, p = .done) :
    ∃ sent, Input.activate i sent ∈ inputs := by
  by_contra hnone
  induction inputs generalizing s p with
  | nil =>
    cases ht
    rw [hdone p (List.mem_of_getElem? hp)] at hc
    cases hc
  | cons x xs ih =>
    obtain ⟨u, hu, ht⟩ := Run.exec_cons_eq_some ht
    have hactivate : ∀ sent, x ≠ .activate i sent := by
      rintro sent rfl
      exact hnone ⟨sent, List.mem_cons_self ..⟩
    obtain ⟨q, hq, hcq⟩ := carries_step hp hc hu
      (fun h => hrestart (h ▸ List.mem_cons_self ..)) hactivate
    refine ih hq hcq (fun h => hrestart (List.mem_cons_of_mem x h)) ht ?_
    rintro ⟨sent, h⟩
    exact hnone ⟨sent, List.mem_cons_of_mem x h⟩

/-- What a start task goes through when its `containers.run` is refused, as every one is
while the container is there. -/
def refusedEnd (i : ℕ) : StartPhase → List Input
  | .launched => [.begin i true, .create i .createFails, .resume i]
  | .creating => [.create i .createFails, .resume i]
  | .refused => [.resume i]
  | .created => [.resume i, .register i, .activate i true]
  | .locating => [.register i, .activate i true]
  | .activating => [.activate i true]
  | .done => []

theorem create_createFails {s : Session} {i : ℕ} {starts : List StartPhase}
    (h : advance s.starts i .creating .refused = some starts) :
    create s i .createFails = some { s with starts := starts } := by
  rw [create.eq_3 s i .createFails (fun _ h => CreateOutcome.noConfusion h)
    fun _ h => CreateOutcome.noConfusion h, h, Option.map_some]

theorem exec_refusedEnd {s : Session} {i : ℕ} {p : StartPhase} (hp : s.starts[i]? = some p) :
    ∃ t, Run.exec step s (refusedEnd i p) = some t ∧ t.starts = s.starts.set i .done := by
  have hlt : i < s.starts.length := (List.getElem?_eq_some_iff.mp hp).1
  have hset : ∀ q : StartPhase, (s.starts.set i q)[i]? = some q := fun q =>
    List.getElem?_set_self hlt
  have hresume : ∀ u : Session, u.starts[i]? = some .refused →
      step u (.resume i) = some { u with starts := u.starts.set i .done } := by
    intro u hu
    have hcreated : advance u.starts i .created .locating = none :=
      if_neg (by rw [hu]; decide)
    simp only [step, hcreated, advance_of_getElem? hu, Option.none_or, Option.map_some]
  have hcreate : ∀ u : Session, u.starts[i]? = some .creating →
      step u (.create i .createFails) = some { u with starts := u.starts.set i .refused } :=
    fun u hu => create_createFails (advance_of_getElem? hu _)
  cases p with
  | launched =>
    have hbegin : step s (.begin i true) = some { s with starts := s.starts.set i .creating } := by
      simp only [step, if_true, advance_of_getElem? hp, Option.map_some]
    refine ⟨{ s with starts := s.starts.set i .done }, ?_, rfl⟩
    rw [refusedEnd, Run.exec, hbegin, Option.bind_some, Run.exec, hcreate _ (hset _),
      Option.bind_some, Run.exec, hresume _ (by rw [List.set_set]; exact hset _)]
    simp only [List.set_set, Option.bind_some, Run.exec]
  | creating =>
    refine ⟨{ s with starts := s.starts.set i .done }, ?_, rfl⟩
    rw [refusedEnd, Run.exec, hcreate _ hp, Option.bind_some, Run.exec, hresume _ (hset _)]
    simp only [List.set_set, Option.bind_some, Run.exec]
  | refused =>
    refine ⟨{ s with starts := s.starts.set i .done }, ?_, rfl⟩
    rw [refusedEnd, Run.exec, hresume _ hp, Option.bind_some, Run.exec]
  | created =>
    refine ⟨{ s with
      starts := s.starts.set i .done
      active := some (.started i)
      posts := s.posts ++ [.activate i] }, ?_, rfl⟩
    simp only [refusedEnd, Run.exec, step, advance_of_getElem? hp, advance_of_getElem? (hset _),
      Option.some_or, Option.map_some, Option.bind_some, List.set_set, if_true]
  | locating =>
    refine ⟨{ s with
      starts := s.starts.set i .done
      active := some (.started i)
      posts := s.posts ++ [.activate i] }, ?_, rfl⟩
    simp only [refusedEnd, Run.exec, step, advance_of_getElem? hp, advance_of_getElem? (hset _),
      Option.map_some, Option.bind_some, List.set_set, if_true]
  | activating =>
    refine ⟨{ s with starts := s.starts.set i .done, posts := s.posts ++ [.activate i] }, ?_, rfl⟩
    simp only [refusedEnd, Run.exec, step, advance_of_getElem? hp, Option.map_some,
      Option.bind_some, if_true]
  | done =>
    refine ⟨s, rfl, ?_⟩
    refine List.ext_getElem? fun j => ?_
    by_cases hij : i = j
    · subst hij
      rw [hset, hp]
    · rw [List.getElem?_set_ne hij]

/-- The first `n` start tasks end, each by itself. -/
theorem exists_ends (s : Session) (n : ℕ) : ∃ inputs t, Run.exec step s inputs = some t ∧
    (∀ x ∈ inputs, ∃ i p, s.starts[i]? = some p ∧ x ∈ refusedEnd i p) ∧
    (∀ j < n, ∀ p, t.starts[j]? = some p → p = .done) ∧
    ∀ j, n ≤ j → t.starts[j]? = s.starts[j]? := by
  induction n with
  | zero =>
    exact ⟨[], s, rfl, fun x hx => absurd hx List.not_mem_nil,
      fun j hj => absurd hj (Nat.not_lt_zero j), fun _ _ => rfl⟩
  | succ n ih =>
    obtain ⟨inputs, t, ht, hinputs, hdone, hrest⟩ := ih
    cases hp : s.starts[n]? with
    | none =>
      refine ⟨inputs, t, ht, hinputs, fun j hj p hq => ?_, fun j hj => hrest j (by omega)⟩
      rcases Nat.lt_succ_iff_lt_or_eq.mp hj with hlt | rfl
      · exact hdone j hlt p hq
      · rw [hrest j le_rfl, hp] at hq
        cases hq
    | some p =>
      obtain ⟨u, hu, hstarts⟩ := exec_refusedEnd ((hrest n le_rfl).trans hp)
      refine ⟨inputs ++ refusedEnd n p, u, ?_, fun x hx => ?_, fun j hj q hq => ?_, fun j hj => ?_⟩
      · rw [Run.exec_append, ht]
        exact hu
      · rcases List.mem_append.mp hx with hx | hx
        · exact hinputs x hx
        · exact ⟨n, p, hp, hx⟩
      · rw [hstarts] at hq
        rcases Nat.lt_succ_iff_lt_or_eq.mp hj with hlt | rfl
        · rw [List.getElem?_set_ne (by omega)] at hq
          exact hdone j hlt q hq
        · rw [List.getElem?_set_self
            (List.getElem?_eq_some_iff.mp ((hrest j le_rfl).trans hp)).1] at hq
          exact (Option.some.inj hq).symm
      · rw [hstarts, List.getElem?_set_ne (by omega)]
        exact hrest j (by omega)

/-- From every state the start tasks can end within the process. -/
theorem exists_allEnd (s : Session) : ∃ inputs t, Run.exec step s inputs = some t ∧
    (∀ p ∈ t.starts, p = .done) ∧ ∀ x ∈ inputs, ∃ i p, s.starts[i]? = some p ∧
      x ∈ refusedEnd i p := by
  obtain ⟨inputs, t, ht, hinputs, hdone, hrest⟩ := exists_ends s s.starts.length
  refine ⟨inputs, t, ht, fun p hp => ?_, hinputs⟩
  obtain ⟨j, hj⟩ := List.getElem?_of_mem hp
  by_cases hlt : j < s.starts.length
  · exact hdone j hlt p hj
  · rw [hrest j (by omega), List.getElem?_eq_none (by omega)] at hj
    cases hj

theorem restart_notMem_refusedEnd (i : ℕ) (p : StartPhase) : Input.restart ∉ refusedEnd i p := by
  cases p <;> simp [refusedEnd]

theorem carries_of_activate_mem_refusedEnd {i j : ℕ} {sent : Bool} {p : StartPhase}
    (h : Input.activate j sent ∈ refusedEnd i p) : p.carries = true := by
  cases p <;> simp [refusedEnd, StartPhase.carries] at h ⊢

/-- No activate POST is sent in any continuation that leaves the container in place,
restarts or not. -/
def NeverActivated (s : Session) : Prop :=
  ∀ inputs t, (∀ x ∈ inputs, Input.keepsContainer x = true) → Run.exec step s inputs = some t →
    Silent (fun _ => True) s t

theorem neverActivated_handleSessions {s : Session} (h : s.container ≠ none)
    (hidle : ∀ p ∈ s.starts, p.carries = false) :
    NeverActivated (handleSessions s .starting) := by
  have hbarren : Barren (fun _ => True) s :=
    ⟨h, fun _ p hp _ => hidle p (List.mem_of_getElem? hp)⟩
  exact fun inputs t hkeeps ht =>
    silent_of_barren (barren_handleSessions hbarren .starting) hkeeps ht

/-- When the dispatcher lists the session as starting while its container is there, an
activate POST follows exactly when the start task that made the container is still on its
way to the POST. Nothing that the heartbeat launches repairs a lost one. -/
theorem activationFollows_iff {s : Session} (h : s.container ≠ none) :
    (ActivationFollows (handleSessions s .starting) ↔ ∃ p ∈ s.starts, p.carries = true) ∧
    ((∀ p ∈ s.starts, p.carries = false) → NeverActivated (handleSessions s .starting)) := by
  refine ⟨⟨?_, ?_⟩, fun hidle => neverActivated_handleSessions h hidle⟩
  · rintro ⟨i, hfollows⟩
    obtain ⟨inputs, t, ht, hdone, hinputs⟩ := exists_allEnd (handleSessions s .starting)
    have hrestart : Input.restart ∉ inputs := by
      intro hmem
      obtain ⟨j, p, -, hx⟩ := hinputs _ hmem
      exact restart_notMem_refusedEnd j p hx
    obtain ⟨sent, hsent⟩ := hfollows inputs t hrestart ht hdone
    obtain ⟨j, p, hp, hx⟩ := hinputs _ hsent
    have hc := carries_of_activate_mem_refusedEnd hx
    obtain ⟨-, -, -, hsame | hnew⟩ := handleSessions_eq s .starting
    · exact ⟨p, hsame ▸ List.mem_of_getElem? hp, hc⟩
    · rcases List.mem_append.mp (hnew ▸ List.mem_of_getElem? hp) with hmem | hmem
      · exact ⟨p, hmem, hc⟩
      · rw [List.mem_singleton.mp hmem] at hc
        cases hc
  · rintro ⟨p, hp, hc⟩
    obtain ⟨i, hi⟩ := List.getElem?_of_mem hp
    exact ⟨i, fun inputs t hrestart ht hdone =>
      activate_mem_of_carries (getElem?_handleSessions hi .starting) hc hrestart ht hdone⟩

def lostActivationRun : List Input :=
  [.heartbeat .starting, .begin 0 true, .create 0 .ok, .resume 0, .register 0, .activate 0 false]

def unactivated : Session :=
  ⟨some ⟨some 0, true⟩, some (.started 0), false, false, [.done], [], [], []⟩

theorem activationFollows_unactivated :
    ¬ ActivationFollows (handleSessions unactivated .starting) ∧
    NeverActivated (handleSessions unactivated .starting) :=
  have h := activationFollows_iff (show unactivated.container ≠ none by decide)
  ⟨h.1.not.mpr (by decide), h.2 (by decide)⟩

/-- The POST is lost; then the session is listed once more, or first the agent
restarts. Both heartbeats are handled to the end and no POST was sent. -/
theorem not_repaired_lostActivation :
    Run.exec step (initial none) lostActivationRun = some unactivated ∧
    (∃ t, Run.exec step unactivated [.heartbeat .starting] = some t ∧
      Finished t ∧ t.container = some ⟨some 0, true⟩ ∧ t.posts = []) ∧
    ∃ t, Run.exec step unactivated
      [.restart, .heartbeat .starting, .begin 0 true, .create 0 .ok, .resume 0] = some t ∧
      Finished t ∧ t.container = some ⟨some 0, true⟩ ∧ t.posts = [] := by
  refine ⟨by decide, ⟨_, rfl, ?_, rfl, rfl⟩, _, rfl, ?_, rfl, rfl⟩
  · exact ⟨by decide, by decide, by decide⟩
  · exact ⟨by decide, by decide, by decide⟩

/-! ### What a start task draws -/

structure Handler where
  publishHost : Str
  comfyuiImage : Str
  ollamaImage : Str
  mediaModelsPath : Str

/-- What one call of `_start_session` was given and drew: `secret` is the password
of an ssh session, else the token. -/
structure Draw where
  stype : Str
  model : Option Str
  port : ℕ
  secret : Str

/-- The arguments of `containers.run`, but for `detach=True` and `remove=False`.
`ports` is the container's port and what it is published on. -/
structure RunKwargs where
  image : Str
  name : Str
  network : Str
  ports : Str × Str × ℕ
  capDrop : List Str
  securityOpt : List Str
  environment : List (Str × Str)
  volumes : List (Str × Str × Str)
  gpu : Bool

def sessionNetwork : Str := "hadcd-rental-bridge".toList

def runKwargs (h : Handler) (sessionId : Str) (gpu : Bool) (d : Draw) : RunKwargs :=
  if d.stype = "ssh".toList then
    { image := "hadcd/ssh-gpu:latest".toList
      name := containerName sessionId
      network := sessionNetwork
      ports := ("22/tcp".toList, h.publishHost, d.port)
      capDrop := ["ALL".toList]
      securityOpt := ["no-new-privileges:true".toList]
      environment := [("SSH_PASSWORD".toList, d.secret)]
      volumes := []
      gpu := gpu }
  else if d.stype = "media".toList then
    { image := h.comfyuiImage
      name := containerName sessionId
      network := sessionNetwork
      ports := ("18188/tcp".toList, h.publishHost, d.port)
      capDrop := []
      securityOpt := []
      environment := [("DIRECT_ADDRESS".toList, "0.0.0.0".toList),
        ("DIRECT_ADDRESS_PORT".toList, "18188".toList), ("HADCD_SESSION_TOKEN".toList, d.secret)]
      volumes := [(h.mediaModelsPath, "/opt/ComfyUI/models".toList, "rw".toList)]
      gpu := gpu }
  else
    { image := h.ollamaImage
      name := containerName sessionId
      network := sessionNetwork
      ports := ("11434/tcp".toList, h.publishHost, d.port)
      capDrop := ["ALL".toList]
      securityOpt := ["no-new-privileges:true".toList]
      environment := [("OLLAMA_HOST".toList, "0.0.0.0".toList),
        ("HADCD_SESSION_TOKEN".toList, d.secret)]
      volumes := [("hadcd-ollama-models".toList, "/root/.ollama".toList, "rw".toList)]
      gpu := gpu }

/-- `model or "llama3"`. -/
def modelName : Option Str → Str
  | some (c :: cs) => c :: cs
  | _ => "llama3".toList

/-- `f"http://{tailscale_ip}:{port}"`. -/
def sessionUrl (ip : Str) (port : ℕ) : Str :=
  "http://".toList ++ ip ++ ":".toList ++ Nat.toDigits 10 port

def connectionInfo (ip : Str) (d : Draw) : List (Str × Json) :=
  if d.stype = "ssh".toList then
    [("host".toList, .str ip), ("port".toList, .int d.port), ("username".toList, .str "user".toList),
      ("password".toList, .str d.secret),
      ("note".toList, .str "SSH over Tailscale. Connect: ssh user@<host> -p <port>".toList)]
  else if d.stype = "media".toList then
    [("url".toList, .str (sessionUrl ip d.port)), ("token".toList, .str d.secret),
      ("note".toList, .str ("ComfyUI media endpoint over Tailscale. POST workflows " ++
        "to <url>/prompt. Sovereign: operator-owned node only.").toList)]
  else
    [("url".toList, .str (sessionUrl ip d.port ++ "/v1".toList)), ("token".toList, .str d.secret),
      ("model".toList, .str (modelName d.model)),
      ("note".toList, .str ("OpenAI-compatible endpoint. " ++
        "Set OPENAI_BASE_URL=<url> and OPENAI_API_KEY=<token> in your app.").toList)]

def activeEntry (containerId : Str) (d : Draw) : List (Str × Json) :=
  [("container_id".toList, .str (containerId.take 12)), ("port".toList, .int d.port),
    ("type".toList, .str d.stype)]

def RunKwargs.hostPort (k : RunKwargs) : ℕ := k.ports.2.2

def RunKwargs.secret (k : RunKwargs) : Option Str :=
  (lookup "SSH_PASSWORD".toList k.environment).or
    (lookup "HADCD_SESSION_TOKEN".toList k.environment)

/-- The activation tells the port that the container is published on, and its
password or token. -/
structure Announces (info : List (Str × Json)) (k : RunKwargs) : Prop where
  port : Json.get info "port".toList = .int k.hostPort ∨ ∃ ip rest, (rest = [] ∨ rest = "/v1".toList) ∧
    Json.get info "url".toList = .str (sessionUrl ip k.hostPort ++ rest)
  secret : ∃ secret, k.secret = some secret ∧
    (Json.get info "password".toList = .str secret ∨ Json.get info "token".toList = .str secret)

structure Describes (entry : List (Str × Json)) (containerId stype : Str) (k : RunKwargs) :
    Prop where
  id : Json.get entry "container_id".toList = .str (containerId.take 12)
  port : Json.get entry "port".toList = .int k.hostPort
  type : Json.get entry "type".toList = .str stype

theorem runKwargs_hostPort (h : Handler) (sessionId : Str) (gpu : Bool) (d : Draw) :
    (runKwargs h sessionId gpu d).hostPort = d.port := by
  unfold runKwargs
  split_ifs
  all_goals rfl

theorem runKwargs_secret (h : Handler) (sessionId : Str) (gpu : Bool) (d : Draw) :
    (runKwargs h sessionId gpu d).secret = some d.secret := by
  unfold runKwargs
  split_ifs
  all_goals rfl

theorem announces_connectionInfo (h : Handler) (sessionId : Str) (gpu : Bool) (ip : Str)
    (d : Draw) : Announces (connectionInfo ip d) (runKwargs h sessionId gpu d) := by
  refine ⟨?_, d.secret, runKwargs_secret h sessionId gpu d, ?_⟩
  · rw [runKwargs_hostPort]
    unfold connectionInfo
    split_ifs
    · exact Or.inl rfl
    · exact Or.inr ⟨ip, [], Or.inl rfl, by rw [List.append_nil]; rfl⟩
    · exact Or.inr ⟨ip, "/v1".toList, Or.inr rfl, rfl⟩
  · unfold connectionInfo
    split_ifs
    · exact Or.inl rfl
    · exact Or.inr rfl
    · exact Or.inr rfl

theorem describes_activeEntry (h : Handler) (sessionId : Str) (gpu : Bool) (containerId : Str)
    (d : Draw) : Describes (activeEntry containerId d) containerId d.stype
      (runKwargs h sessionId gpu d) where
  id := rfl
  port := by
    rw [runKwargs_hostPort]
    rfl
  type := rfl

/-! ### Racing start tasks -/

/-- The session is listed as starting any number of times, and is not torn down. -/
def Input.starts : Input → Bool
  | .heartbeat .starting | .heartbeat .other | .begin _ _ | .create _ _ | .resume _ | .register _
  | .activate _ _ | .containerExits => true
  | _ => false

def creations : Session → List Input → ℕ
  | _, [] => 0
  | s, i :: is =>
    match step s i with
    | some t => (if s.container = none ∧ t.container ≠ none then 1 else 0) + creations t is
    | none => 0

/-- At most one activation was sent, it is that of the container, and so is the
entry of `_active`. -/
structure Single (h : Handler) (sessionId : Str) (draws : ℕ → Draw) (ids : ℕ → Str)
    (s : Session) : Prop where
  once : (s.posts.filter Post.isActivate).length ≤ 1
  announced : ∀ i, .activate i ∈ s.posts → ∃ j, s.creator = some j ∧
    ∀ ip gpu, Announces (connectionInfo ip (draws i)) (runKwargs h sessionId gpu (draws j))
  described : ∀ e, s.active = some e → ∃ i j, e = .started i ∧ s.creator = some j ∧
    ∀ gpu, Describes (activeEntry (ids i) (draws i)) (ids j) (draws j).stype
      (runKwargs h sessionId gpu (draws j))

/-- What lies beyond the creation of the container was done by its creator. -/
structure Sole (s : Session) : Prop where
  carried : ∀ i p, s.starts[i]? = some p → p.carries = true → s.creator = some i
  active : ∀ e, s.active = some e → ∃ i, s.creator = some i ∧ e = .started i
  posted : ∀ i, .activate i ∈ s.posts → s.creator = some i ∧ s.starts[i]? = some .done
  once : (s.posts.filter Post.isActivate).length ≤ 1

theorem Sole.single {s : Session} (hs : Sole s) (h : Handler) (sessionId : Str)
    (draws : ℕ → Draw) (ids : ℕ → Str) : Single h sessionId draws ids s where
  once := hs.once
  announced := fun i hi => ⟨i, (hs.posted i hi).1,
    fun ip gpu => announces_connectionInfo h sessionId gpu ip (draws i)⟩
  described := by
    intro e he
    obtain ⟨i, hi, rfl⟩ := hs.active e he
    exact ⟨i, i, rfl, hi, fun gpu => describes_activeEntry h sessionId gpu (ids i) (draws i)⟩

def leftover (running : Option Bool) : Option Container := running.map fun r => ⟨none, r⟩

theorem sole_initial (container : Option Container) : Sole (initial container) where
  carried := fun _ _ h => by cases h
  active := fun _ h => (by cases h)
  posted := fun _ h => (by cases h)
  once := Nat.zero_le 1

section Sole

variable {s t : Session}

theorem Sole.of_advance (hs : Sole s) {i : ℕ} {phase next : StartPhase}
    {starts : List StartPhase} (ha : advance s.starts i phase next = some starts)
    (hdone : phase ≠ .done) (hnext : next.carries = true → phase.carries = true) :
    Sole { s with starts := starts } where
  carried := forall_advance ha hs.carried
    fun hc => hs.carried i phase (advance_eq_some ha).1 (hnext hc)
  active := hs.active
  posted := fun j hj =>
    ⟨(hs.posted j hj).1, getElem?_advance_of_ne ha (hs.posted j hj).2 hdone.symm⟩
  once := hs.once

theorem sole_handleSessions (hs : Sole s) (status : Status) : Sole (handleSessions s status) := by
  obtain ⟨hcontainer, hposts, hactive, hstarts⟩ := handleSessions_eq s status
  have hcreator : (handleSessions s status).creator = s.creator := by
    rw [Session.creator, hcontainer, Session.creator]
  refine ⟨?_, ?_, ?_, by rw [hposts]; exact hs.once⟩
  · rw [hcreator]
    rcases hstarts with hsame | hnew
    · rw [hsame]
      exact hs.carried
    · rw [hnew]
      exact forall_launched hs.carried fun _ hc => by cases hc
  · rw [hcreator, hactive]
    exact hs.active
  · intro i hi
    rw [hposts] at hi
    obtain ⟨hown, hdone⟩ := hs.posted i hi
    refine ⟨hcreator.trans hown, ?_⟩
    rcases hstarts with hsame | hnew
    · rw [hsame]
      exact hdone
    · rw [hnew, List.getElem?_append_left (List.getElem?_eq_some_iff.mp hdone).1]
      exact hdone

theorem sole_create (hs : Sole s) {i : ℕ} {next : StartPhase} {running : Bool}
    {starts : List StartPhase} (ha : advance s.starts i .creating next = some starts)
    (hnone : s.container = none) :
    Sole { s with starts := starts, container := some ⟨some i, running⟩ } := by
  have hcreator : s.creator = none := by rw [Session.creator, hnone]; rfl
  refine ⟨?_, ?_, ?_, hs.once⟩
  · refine forall_advance ha ?_ fun _ => rfl
    intro j p hp hc
    have hown := hs.carried j p hp hc
    rw [hcreator] at hown
    cases hown
  · intro e he
    obtain ⟨j, hown, -⟩ := hs.active e he
    rw [hcreator] at hown
    cases hown
  · intro j hj
    have hown := (hs.posted j hj).1
    rw [hcreator] at hown
    cases hown

theorem sole_activate (hs : Sole s) {i : ℕ} {starts : List StartPhase}
    (ha : advance s.starts i .activating .done = some starts) (sent : Bool) :
    Sole { s with
      starts := starts
      posts := if sent then s.posts ++ [.activate i] else s.posts } := by
  have hbase := hs.of_advance ha (by decide) (by decide)
  cases sent with
  | false => exact hbase
  | true =>
    have hown : s.creator = some i := hs.carried i _ (advance_eq_some ha).1 rfl
    -- nobody has posted: it could only have been this task, which is still at it
    have hnone : s.posts.filter Post.isActivate = [] := by
      rw [List.filter_eq_nil_iff]
      intro p hp hactivate
      cases p with
      | activate j =>
        obtain ⟨hother, hdone⟩ := hs.posted j hp
        rw [hown] at hother
        cases hother
        rw [(advance_eq_some ha).1] at hdone
        cases hdone
      | _ => cases hactivate
    refine ⟨hbase.carried, hbase.active, ?_, ?_⟩
    · intro j hj
      rcases List.mem_append.mp hj with hold | hnew
      · exact hbase.posted j hold
      · cases List.mem_singleton.mp hnew
        obtain ⟨hi, rfl⟩ := advance_eq_some ha
        exact ⟨hown, List.getElem?_set_self (List.getElem?_eq_some_iff.mp hi).1⟩
    · simp only [if_true, List.filter_append, hnone, List.nil_append]
      exact List.length_filter_le _ _

theorem sole_step {i : Input} (hs : Sole s) (hi : i.starts = true) (ht : step s i = some t) :
    Sole t ∧ (s.container ≠ none → t.container ≠ none) := by
  cases i with
  | heartbeat status =>
    cases ht
    refine ⟨sole_handleSessions hs status, ?_⟩
    rw [(handleSessions_eq s status).1]
    exact fun hc => hc
  | begin i proceeds =>
    obtain ⟨starts, ha, rfl⟩ := Option.map_eq_some_iff.mp ht
    exact ⟨hs.of_advance ha (by decide) (by cases proceeds <;> decide), fun hc => hc⟩
  | create i outcome =>
    rcases create_spec ht with ⟨starts, ha, hnone, rfl⟩ | ⟨starts, ha, hnone, rfl⟩ | ⟨starts, ha, rfl⟩
    · exact ⟨sole_create hs ha hnone, fun _ hc => (by cases hc)⟩
    · exact ⟨sole_create hs ha hnone, fun _ hc => (by cases hc)⟩
    · exact ⟨hs.of_advance ha (by decide) (by decide), fun hc => hc⟩
  | resume i =>
    obtain ⟨starts, ha, rfl⟩ := Option.map_eq_some_iff.mp ht
    rcases Option.or_eq_some_iff.mp ha with ha | ⟨-, ha⟩
    · exact ⟨hs.of_advance ha (by decide) (by decide), fun hc => hc⟩
    · exact ⟨hs.of_advance ha (by decide) (by decide), fun hc => hc⟩
  | register i =>
    obtain ⟨starts, ha, rfl⟩ := Option.map_eq_some_iff.mp ht
    have hown : s.creator = some i := hs.carried i _ (advance_eq_some ha).1 rfl
    have hbase := hs.of_advance ha (by decide) (by decide)
    refine ⟨⟨hbase.carried, ?_, hbase.posted, hbase.once⟩, fun hc => hc⟩
    intro e he
    cases he
    exact ⟨i, hown, rfl⟩
  | activate i sent =>
    obtain ⟨starts, ha, rfl⟩ := Option.map_eq_some_iff.mp ht
    exact ⟨sole_activate hs ha sent, fun hc => hc⟩
  | containerExits =>
    cases ht
    have hcreator : ∀ j, s.creator = some j →
        (s.container.map fun c => { c with running := false }).bind Container.creator =
          some j := by
      intro j hj
      rw [Session.creator] at hj
      cases hc : s.container with
      | none =>
        rw [hc] at hj
        cases hj
      | some c =>
        rw [hc] at hj
        exact hj
    refine ⟨⟨?_, ?_, ?_, hs.once⟩, ?_⟩
    · exact fun j p hp hc => hcreator j (hs.carried j p hp hc)
    · intro e he
      obtain ⟨j, hown, hj⟩ := hs.active e he
      exact ⟨j, hcreator j hown, hj⟩
    · exact fun j hj => ⟨hcreator j (hs.posted j hj).1, (hs.posted j hj).2⟩
    · intro hc
      simpa using hc
  | _ => cases hi

theorem creations_le {inputs : List Input} (hs : Sole s)
    (hi : ∀ i ∈ inputs, i.starts = true) :
    creations s inputs ≤ if s.container = none then 1 else 0 := by
  induction inputs generalizing s with
  | nil => exact Nat.zero_le _
  | cons i is ih =>
    rw [creations]
    cases ht : step s i with
    | none => exact Nat.zero_le _
    | some t =>
      obtain ⟨hsole, hkeeps⟩ := sole_step hs (hi i (List.mem_cons_self ..)) ht
      have hrest := ih hsole fun k hk => hi k (List.mem_cons_of_mem i hk)
      dsimp only
      by_cases hnone : s.container = none
      · by_cases hcreated : t.container = none
        · rw [if_neg (fun hc => hc.2 hcreated), if_pos hnone, zero_add]
          rwa [if_pos hcreated] at hrest
        · rw [if_pos ⟨hnone, hcreated⟩, if_pos hnone]
          rw [if_neg hcreated] at hrest
          omega
      · rw [if_neg (fun hc => hnone hc.1), if_neg hnone, zero_add]
        rwa [if_neg (hkeeps hnone)] at hrest

theorem sole_of_run {inputs : List Input} (hs : Sole s) (hi : ∀ i ∈ inputs, i.starts = true)
    (ht : Run.exec step s inputs = some t) : Sole t :=
  Run.exec_invariant (fun _ _ _ h hstart hstep => (sole_step h hstart hstep).1) hs
    (Run.along_of_forall (P := fun _ i => i.starts = true) step fun i hmem _ => hi i hmem) ht

end Sole

/-- However many start tasks race, and whatever Docker calls fail: at most one
container is created and one activation sent, which is that container's, as is the
entry of `_active`. -/
theorem single_of_starts (h : Handler) (sessionId : Str) (draws : ℕ → Draw) (ids : ℕ → Str)
    (running : Option Bool) {inputs : List Input} (hi : ∀ i ∈ inputs, i.starts = true)
    {t : Session} (ht : Run.exec step (initial (leftover running)) inputs = some t) :
    creations (initial (leftover running)) inputs ≤ 1 ∧ Single h sessionId draws ids t := by
  have hsole := sole_initial (leftover running)
  constructor
  · refine (creations_le hsole hi).trans ?_
    split_ifs <;> decide
  · exact (sole_of_run hsole hi ht).single h sessionId draws ids

/-- Two heartbeats come before the container is there; the second task loses the race. -/
def racingRun : List Input :=
  [.heartbeat .starting, .heartbeat .starting, .begin 0 true, .begin 1 true, .create 1 .ok,
    .create 0 .ok, .resume 0, .resume 1, .register 1, .activate 1 true]

def plainHandler : Handler :=
  ⟨"127.0.0.1".toList, "ghcr.io/ai-dock/comfyui:latest".toList, "ollama".toList, []⟩

theorem single_racingRun : ∃ t,
    Run.exec step (initial (leftover none)) racingRun = some t ∧ .activate 1 ∈ t.posts ∧
    creations (initial (leftover none)) racingRun ≤ 1 ∧
    Single plainHandler "s".toList (fun i => ⟨"ssh".toList, none, 52000 + i, "00".toList⟩)
      (fun _ => "c".toList) t :=
  ⟨_, rfl, by decide, single_of_starts plainHandler _ _ _ none (by decide) rfl⟩

end HadcdAgent.Rental
