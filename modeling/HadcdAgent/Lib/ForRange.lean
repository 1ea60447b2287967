import Mathlib.Algebra.BigOperators.Group.Finset.Basic
import Mathlib.Data.List.Basic

/-!
# Counted loops

`for i in range(n)` over a state. A map of the state that each round respects turns the
loop into one over what the map shows; so nested loops that update a table in place come
down, entry by entry, to loops over a single value.
-/

namespace Lib

variable {σ τ : Type*}

def forRange (n : ℕ) (body : ℕ → σ → σ) (s : σ) : σ :=
  (List.range n).foldl (fun s i => body i s) s

@[simp] theorem forRange_zero (body : ℕ → σ → σ) (s : σ) : forRange 0 body s = s := rfl

theorem forRange_succ (n : ℕ) (body : ℕ → σ → σ) (s : σ) :
    forRange (n + 1) body s = body n (forRange n body s) := by
  rw [forRange, List.range_succ, List.foldl_append]
  rfl

theorem forRange_hom (φ : σ → τ) {f : ℕ → σ → σ} {g : ℕ → τ → τ}
    (h : ∀ i s, φ (f i s) = g i (φ s)) (n : ℕ) (s : σ) :
    φ (forRange n f s) = forRange n g (φ s) := by
  induction n with
  | zero => rfl
  | succ n ih => rw [forRange_succ, forRange_succ, h, ih]

theorem forRange_id (n : ℕ) (s : σ) : forRange n (fun _ s => s) s = s := by
  induction n with
  | zero => rfl
  | succ n ih => rw [forRange_succ, ih]

/-- Only the round `m` does anything. -/
theorem forRange_single (n m : ℕ) (f : σ → σ) (s : σ) :
    forRange n (fun i s => if i = m then f s else s) s = if m < n then f s else s := by
  induction n with
  | zero => rfl
  | succ n ih =>
    rw [forRange_succ, ih]
    by_cases hm : n = m
    · subst hm
      rw [if_pos rfl, if_neg (Nat.lt_irrefl n), if_pos (Nat.lt_succ_self n)]
    · rw [if_neg hm]
      by_cases hlt : m < n
      · rw [if_pos hlt, if_pos (Nat.lt_succ_of_lt hlt)]
      · rw [if_neg hlt, if_neg fun h => hm (by omega)]

theorem forRange_map (n : ℕ) (body : ℕ → σ → σ) (x : Option σ) :
    forRange n (fun i x => x.map (body i)) x = x.map (forRange n body) := by
  induction n with
  | zero => exact Option.map_id'.symm
  | succ n ih =>
    rw [forRange_succ, ih, Option.map_map]
    congr 1
    funext s
    exact (forRange_succ n body s).symm

theorem forRange_add_const (n k t : ℕ) : forRange n (fun _ t => t + k) t = t + n * k := by
  induction n with
  | zero => rw [forRange_zero, Nat.zero_mul, Nat.add_zero]
  | succ n ih => rw [forRange_succ, ih, Nat.succ_mul, Nat.add_assoc]

theorem forRange_sum {M : Type*} [AddCommMonoid M] (n : ℕ) (f : ℕ → M) :
    forRange n (fun k acc => acc + f k) 0 = ∑ k ∈ Finset.range n, f k := by
  induction n with
  | zero => rfl
  | succ n ih => rw [forRange_succ, ih, Finset.sum_range_succ]

end Lib
