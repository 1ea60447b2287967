import Mathlib.Tactic.TypeStar

/-!
# The state in which a run ends

Code with a state that may raise is `EStateM ε σ`. Whether it returns or raises, the
changes made so far stay; `final` is the state it leaves.
-/

namespace Lib

variable {ε σ α β : Type}

def final (x : EStateM ε σ α) (s : σ) : σ :=
  match x s with
  | .ok _ t | .error _ t => t

theorem final_of_ok {x : EStateM ε σ α} {s t : σ} {a : α} (h : x s = .ok a t) :
    final x s = t := by
  rw [final, h]

theorem final_of_error {x : EStateM ε σ α} {s t : σ} {e : ε} (h : x s = .error e t) :
    final x s = t := by
  rw [final, h]

theorem bind_of_ok {x : EStateM ε σ α} {s t : σ} {a : α} (h : x s = .ok a t)
    (f : α → EStateM ε σ β) : (x >>= f) s = f a t := by
  change EStateM.bind x f s = f a t
  rw [EStateM.bind, h]

theorem bind_of_error {x : EStateM ε σ α} {s t : σ} {e : ε} (h : x s = .error e t)
    (f : α → EStateM ε σ β) : (x >>= f) s = .error e t := by
  change EStateM.bind x f s = .error e t
  rw [EStateM.bind, h]

theorem bind_modify (g : σ → σ) (f : PUnit → EStateM ε σ β) (s : σ) :
    ((modify g : EStateM ε σ PUnit) >>= f) s = f ⟨⟩ (g s) := rfl

theorem final_bind_of_ok {x : EStateM ε σ α} {s t : σ} {a : α} (h : x s = .ok a t)
    (f : α → EStateM ε σ β) : final (x >>= f) s = final (f a) t := by
  rw [final, bind_of_ok h, final]

theorem final_bind_of_error {x : EStateM ε σ α} {s t : σ} {e : ε} (h : x s = .error e t)
    (f : α → EStateM ε σ β) : final (x >>= f) s = t :=
  final_of_error (bind_of_error h f)

/-- What every continuation keeps, a sequence keeps from its first part's end. -/
theorem final_bind_congr {γ : Type} (p : σ → γ) {x : EStateM ε σ α} {f : α → EStateM ε σ β}
    (hf : ∀ a t, p (final (f a) t) = p t) (s : σ) : p (final (x >>= f) s) = p (final x s) := by
  cases hx : x s with
  | ok a t => rw [final_bind_of_ok hx, hf, final_of_ok hx]
  | error e t => rw [final_bind_of_error hx, final_of_error hx]

theorem final_liftExcept (x : Except ε α) (s : σ) :
    final (liftExcept x : EStateM ε σ α) s = s := by
  cases x <;> rfl

theorem tryFinally_of_ok {x : EStateM ε σ α} {f : EStateM ε σ β} {s t u : σ} {a : α} {b : β}
    (hx : x s = .ok a t) (hf : f t = .ok b u) : tryFinally x f s = .ok a u := by
  simp [tryFinally, tryFinally', Functor.map, EStateM.map, hx, hf]

theorem tryFinally_of_error {x : EStateM ε σ α} {f : EStateM ε σ β} {s t u : σ} {e : ε} {b : β}
    (hx : x s = .error e t) (hf : f t = .ok b u) : tryFinally x f s = .error e u := by
  simp [tryFinally, tryFinally', Functor.map, EStateM.map, hx, hf]

/-- A finaliser runs from the state in which the body ends. -/
theorem final_tryFinally (x : EStateM ε σ α) (f : EStateM ε σ β) (s : σ) :
    final (tryFinally x f) s = final f (final x s) := by
  cases hx : x s with
  | ok a t => cases hf : f t <;> simp_all [final, tryFinally, tryFinally', Functor.map, EStateM.map]
  | error e t => cases hf : f t <;> simp_all [final, tryFinally, tryFinally', Functor.map, EStateM.map]

end Lib
