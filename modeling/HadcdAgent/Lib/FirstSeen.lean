import Mathlib.Data.List.Find
import Mathlib.Data.List.Nodup
import Mathlib.Tactic

/-!
# The first of each key

A pass over a list that keeps an element when its key has not been seen yet.
-/

namespace Lib

variable {α κ : Type*} [DecidableEq κ] {key : α → κ}

def firstSeen (key : α → κ) : List κ → List α → List α
  | _, [] => []
  | seen, a :: l =>
    if key a ∈ seen then firstSeen key seen l else a :: firstSeen key (key a :: seen) l

/-- What is kept are the first elements with a key that was not seen before the pass. -/
theorem mem_firstSeen {seen : List κ} {l : List α} {a : α} : a ∈ firstSeen key seen l ↔
    key a ∉ seen ∧ l.find? (fun b => key b = key a) = some a := by
  induction l generalizing seen with
  | nil => simp [firstSeen]
  | cons b l ih =>
    rw [firstSeen, List.find?_cons]
    by_cases hkey : key b = key a
    · rw [decide_eq_true hkey]
      split_ifs with hseen
      · rw [ih]
        exact iff_of_false (fun h => h.1 (hkey ▸ hseen)) (fun h => h.1 (hkey ▸ hseen))
      · rw [List.mem_cons, ih, hkey]
        constructor
        · rintro (rfl | h)
          · exact ⟨hseen, rfl⟩
          · exact absurd (List.mem_cons_self ..) h.1
        · rintro ⟨-, h⟩
          exact Or.inl (Option.some.inj h).symm
    · rw [decide_eq_false hkey]
      have hne : a ≠ b := by
        rintro rfl
        exact hkey rfl
      split_ifs with hseen
      · exact ih
      · rw [List.mem_cons, ih, List.mem_cons]
        simp [hne, Ne.symm hkey]

theorem nodup_firstSeen (seen : List κ) (l : List α) :
    ((firstSeen key seen l).map key).Nodup := by
  induction l generalizing seen with
  | nil => exact List.nodup_nil
  | cons a l ih =>
    rw [firstSeen]
    split_ifs with hseen
    · exact ih seen
    · rw [List.map_cons, List.nodup_cons]
      refine ⟨fun hmem => ?_, ih _⟩
      obtain ⟨b, hb, hkey⟩ := List.mem_map.mp hmem
      exact (mem_firstSeen.mp hb).1 (hkey ▸ List.mem_cons_self ..)

theorem exists_mem_firstSeen {seen : List κ} {l : List α} {a : α} (ha : a ∈ l)
    (hseen : key a ∉ seen) : ∃ b ∈ firstSeen key seen l, key b = key a := by
  cases hfind : l.find? (fun b => key b = key a) with
  | none => exact absurd (List.find?_eq_none.mp hfind a ha) (by simp)
  | some b =>
    have hkey : key b = key a := by simpa using List.find?_some hfind
    refine ⟨b, mem_firstSeen.mpr ⟨hkey ▸ hseen, ?_⟩, hkey⟩
    rw [hkey, hfind]

end Lib
