import HadcdAgent.Lib.Final

/-!
# `containers.run` of the Docker SDK

Detached, it creates a container and then starts it; for an image that is missing it
pulls and creates again. When the start raises, the container that was created stays.
-/

namespace Lib.DockerRun

/-- `ImageNotFound` is an `APIError`; `other` is none. -/
inductive Error where
  | imageNotFound
  | apiError
  | other
  deriving DecidableEq

/-- What the daemon raises in one call, if anything. -/
structure RunIo where
  create : Option Error
  pull : Option Error
  retry : Option Error
  start : Option Error
  deriving DecidableEq

variable {σ ρ : Type}

def answer : Option Error → EStateM Error σ Unit
  | none => pure ()
  | some e => throw e

def run (io : RunIo) (create : EStateM Error σ ρ) (start : ρ → σ → σ) : EStateM Error σ ρ := do
  let container ← tryCatch (do answer io.create; create) fun e =>
    if e = .imageNotFound then do
      answer io.pull
      answer io.retry
      create
    else throw e
  answer io.start
  modify (start container)
  pure container

/-- The daemon accepts the creation, at once or after the pull. -/
def RunIo.Creates (io : RunIo) : Prop :=
  io.create = none ∨ io.create = some .imageNotFound ∧ io.pull = none ∧ io.retry = none

instance (io : RunIo) : Decidable io.Creates :=
  inferInstanceAs (Decidable (io.create = none ∨
    io.create = some .imageNotFound ∧ io.pull = none ∧ io.retry = none))

section Run

variable {io : RunIo} {create : EStateM Error σ ρ} {start : ρ → σ → σ} {s u : σ} {c : ρ}

theorem tryCatch_apply (x : EStateM Error σ ρ) (f : Error → EStateM Error σ ρ) (s : σ) :
    (tryCatch x f) s =
      match x s with
      | .ok c u => .ok c u
      | .error e u => f e u := by
  change EStateM.tryCatch x f s = _
  delta EStateM.tryCatch
  cases x s <;> rfl

theorem tryCatch_of_ok {x : EStateM Error σ ρ} {f : Error → EStateM Error σ ρ}
    (h : x s = .ok c u) : (tryCatch x f) s = .ok c u := by
  rw [tryCatch_apply, h]

theorem tryCatch_of_error {x : EStateM Error σ ρ} {f : Error → EStateM Error σ ρ} {e : Error}
    (h : x s = .error e u) : (tryCatch x f) s = f e u := by
  rw [tryCatch_apply, h]

theorem answer_of_none {e : Option Error} (h : e = none) : (answer e) s = .ok () s := by
  rw [h]
  rfl

theorem answer_of_some {e : Option Error} {error : Error} (h : e = some error) :
    (answer e) s = .error error s := by
  rw [h]
  rfl

theorem run_of_creates (h : io.Creates) (hc : create s = .ok c u) :
    run io create start s =
      (do answer io.start; modify (start c); pure c : EStateM Error σ ρ) u := by
  refine bind_of_ok ?_ _
  rcases h with h | ⟨h, hpull, hretry⟩
  · refine tryCatch_of_ok ?_
    rw [bind_of_ok (answer_of_none h)]
    exact hc
  · rw [tryCatch_of_error (bind_of_error (answer_of_some h) _), if_pos rfl,
      bind_of_ok (answer_of_none hpull), bind_of_ok (answer_of_none hretry)]
    exact hc

theorem run_of_starts (h : io.Creates) (hc : create s = .ok c u) (hs : io.start = none) :
    run io create start s = .ok c (start c u) := by
  rw [run_of_creates h hc, bind_of_ok (answer_of_none hs)]
  rfl

theorem run_of_startFails {e : Error} (h : io.Creates) (hc : create s = .ok c u)
    (hs : io.start = some e) : run io create start s = .error e u := by
  rw [run_of_creates h hc]
  exact bind_of_error (answer_of_some hs) _

theorem run_of_not_creates (h : ¬ io.Creates) : ∃ e, run io create start s = .error e s := by
  cases hcreate : io.create with
  | none => exact absurd (Or.inl hcreate) h
  | some e =>
    have hfirst : (do answer io.create; create : EStateM Error σ ρ) s = .error e s :=
      bind_of_error (answer_of_some hcreate) _
    by_cases he : e = .imageNotFound
    · subst he
      cases hpull : io.pull with
      | some e =>
        refine ⟨e, bind_of_error ?_ _⟩
        rw [tryCatch_of_error hfirst, if_pos rfl, bind_of_error (answer_of_some hpull)]
      | none =>
        cases hretry : io.retry with
        | none => exact absurd (Or.inr ⟨hcreate, hpull, hretry⟩) h
        | some e =>
          refine ⟨e, bind_of_error ?_ _⟩
          rw [tryCatch_of_error hfirst, if_pos rfl, bind_of_ok (answer_of_none hpull),
            bind_of_error (answer_of_some hretry)]
    · refine ⟨e, bind_of_error ?_ _⟩
      rw [tryCatch_of_error hfirst, if_neg he]
      rfl

theorem run_of_refused {e : Error} (he : e ≠ .imageNotFound) (hc : create s = .error e s) :
    ∃ e', run io create start s = .error e' s := by
  by_cases h : io.Creates
  · refine ⟨e, bind_of_error ?_ _⟩
    rcases h with h | ⟨h, hpull, hretry⟩
    · have hfirst : (do answer io.create; create : EStateM Error σ ρ) s = .error e s := by
        rw [bind_of_ok (answer_of_none h)]
        exact hc
      rw [tryCatch_of_error hfirst, if_neg he]
      rfl
    · rw [tryCatch_of_error (bind_of_error (answer_of_some h) _), if_pos rfl,
        bind_of_ok (answer_of_none hpull), bind_of_ok (answer_of_none hretry)]
      exact hc
  · exact run_of_not_creates h

end Run

end Lib.DockerRun
