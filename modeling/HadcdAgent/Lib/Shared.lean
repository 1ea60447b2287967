import Mathlib.Algebra.BigOperators.Group.Finset.Basic
import Mathlib.Algebra.Order.BigOperators.Group.Finset
import Mathlib.Tactic

/-!
# Sets that share their elements

The size of a union of finite sets against the sum of their sizes.
-/

namespace Lib

variable {α : Type*} [DecidableEq α]

def unionAll (sets : List (Finset α)) : Finset α := sets.foldr (· ∪ ·) ∅

variable {sets : List (Finset α)} {size : α → ℕ}

theorem mem_unionAll {a : α} : a ∈ unionAll sets ↔ ∃ s ∈ sets, a ∈ s := by
  induction sets with
  | nil => simp [unionAll]
  | cons s sets ih =>
    change a ∈ s ∪ unionAll sets ↔ _
    rw [Finset.mem_union, ih, List.exists_mem_cons_iff]

/-- What is shared is counted once in the union. -/
theorem sum_unionAll_le (sets : List (Finset α)) (size : α → ℕ) :
    ∑ a ∈ unionAll sets, size a ≤ (sets.map fun s => ∑ a ∈ s, size a).sum := by
  induction sets with
  | nil => exact le_rfl
  | cons s sets ih =>
    rw [List.map_cons, List.sum_cons]
    calc ∑ a ∈ s ∪ unionAll sets, size a
        ≤ ∑ a ∈ s ∪ unionAll sets, size a + ∑ a ∈ s ∩ unionAll sets, size a := Nat.le_add_right ..
      _ = ∑ a ∈ s, size a + ∑ a ∈ unionAll sets, size a := Finset.sum_union_inter
      _ ≤ ∑ a ∈ s, size a + (sets.map fun s => ∑ a ∈ s, size a).sum := Nat.add_le_add_left ih _

theorem sum_unionAll_of_disjoint (h : sets.Pairwise Disjoint) (size : α → ℕ) :
    ∑ a ∈ unionAll sets, size a = (sets.map fun s => ∑ a ∈ s, size a).sum := by
  induction sets with
  | nil => rfl
  | cons s sets ih =>
    obtain ⟨hs, hsets⟩ := List.pairwise_cons.mp h
    have hdisjoint : Disjoint s (unionAll sets) := by
      rw [Finset.disjoint_left]
      intro a ha hunion
      obtain ⟨t, ht, hat⟩ := mem_unionAll.mp hunion
      exact Finset.disjoint_left.mp (hs t ht) ha hat
    rw [List.map_cons, List.sum_cons, ← ih hsets]
    exact Finset.sum_union hdisjoint

end Lib
