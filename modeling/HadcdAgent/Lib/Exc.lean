import Mathlib.Tactic.TypeStar

/-!
# Exceptions

Code that may raise is `Except ε`.
-/

namespace Lib

variable {ε : Type*}

/-- Classes of exceptions, as far as the handlers of this code tell them apart.
`httpError` is `httpx.HTTPError`. -/
inductive PyExc where
  | httpError
  | osError
  | valueError
  | unicodeDecodeError
  | jsonDecodeError
  | keyError
  | indexError
  | typeError
  | attributeError
  | overflowError
  | recursionError
  deriving DecidableEq

def PyExc.isValueError : PyExc → Bool
  | valueError | unicodeDecodeError | jsonDecodeError => true
  | httpError | osError | keyError | indexError | typeError | attributeError
  | overflowError | recursionError => false

@[simp] theorem ok_bind {α β : Type} (a : α) (f : α → Except ε β) : (.ok a >>= f) = f a := rfl

theorem bind_eq_ok {α β : Type} {x : Except ε α} {f : α → Except ε β} {b : β}
    (h : x >>= f = .ok b) : ∃ a, x = .ok a ∧ f a = .ok b := by
  cases x with
  | error e => cases h
  | ok a => exact ⟨a, rfl, h⟩

theorem bind_eq_error {α β : Type} {x : Except ε α} {f : α → Except ε β} {e : ε}
    (h : x >>= f = .error e) : x = .error e ∨ ∃ a, x = .ok a ∧ f a = .error e := by
  cases x with
  | error e' =>
    cases h
    exact Or.inl rfl
  | ok a => exact Or.inr ⟨a, rfl, h⟩

/-- `try: x` with a handler that returns a default for the exceptions it lists. -/
def rescue {α : Type} (caught : ε → Bool) (default : α) : Except ε α → Except ε α
  | .ok a => .ok a
  | .error e => if caught e then .ok default else .error e

theorem rescue_eq_error {α : Type} {caught : ε → Bool} {default : α} {x : Except ε α} {e : ε} :
    rescue caught default x = .error e ↔ x = .error e ∧ caught e = false := by
  cases x with
  | ok a => exact iff_of_false (fun h => (nomatch h)) (fun h => (nomatch h.1))
  | error e' =>
    rw [rescue]
    by_cases hc : caught e' = true
    · rw [if_pos hc]
      refine iff_of_false (fun h => (nomatch h)) ?_
      rintro ⟨he, hnot⟩
      cases he
      rw [hc] at hnot
      cases hnot
    · rw [if_neg hc]
      refine ⟨fun h => ?_, fun h => h.1⟩
      cases h
      exact ⟨rfl, by simpa using hc⟩

end Lib
