import Mathlib.Tactic

/-!
# Escaped fields

A field whose separators and escape characters are each preceded by an escape character,
and when reading it without unescaping it gives the field back.
-/

namespace Lib

variable {α : Type*} [DecidableEq α]

def escape (sep esc : α) (t : List α) : List α :=
  t.flatMap fun c => if c = sep ∨ c = esc then [esc, c] else [c]

section Escape

variable {sep esc : α}

theorem escape_cons (c : α) (t : List α) : escape sep esc (c :: t) =
    (if c = sep ∨ c = esc then [esc, c] else [c]) ++ escape sep esc t := List.flatMap_cons

theorem mem_of_mem_escape {t : List α} {c : α} (h : c ∈ escape sep esc t) : c = esc ∨ c ∈ t := by
  obtain ⟨d, hd, hc⟩ := List.mem_flatMap.mp h
  split_ifs at hc
  · rcases List.mem_pair.mp hc with rfl | rfl
    · exact Or.inl rfl
    · exact Or.inr hd
  · rw [List.mem_singleton.mp hc]
    exact Or.inr hd

theorem escape_of_not_mem {t : List α} (hsep : sep ∉ t) (hesc : esc ∉ t) :
    escape sep esc t = t := by
  induction t with
  | nil => rfl
  | cons c t ih =>
    rw [List.mem_cons, not_or] at hsep hesc
    have hplain : ¬ (c = sep ∨ c = esc) := by
      rintro (rfl | rfl)
      · exact hsep.1 rfl
      · exact hesc.1 rfl
    rw [escape_cons, if_neg hplain, ih hsep.2 hesc.2]
    rfl

/-- Escaping counts: each escape character is doubled, each separator brings one. -/
theorem count_escape (hne : sep ≠ esc) (t : List α) :
    (escape sep esc t).count esc = 2 * t.count esc + t.count sep := by
  induction t with
  | nil => rfl
  | cons c t ih =>
    rw [escape_cons, List.count_append, ih, List.count_cons, List.count_cons]
    by_cases hsep : c = sep
    · subst hsep
      simp [hne]
      omega
    · by_cases hesc : c = esc
      · subst hesc
        simp [hsep]
        omega
      · simp [hsep, hesc]

end Escape

/-! ### Maps onto a finite set -/

section Onto

variable {f : α → α} {E : Finset α} {w : α → ℕ}

/-- A map onto a finite set from itself only permutes it, and keeps every sum. -/
theorem sum_comp_eq (h : E ⊆ E.image f) (w : α → ℕ) :
    ∑ a ∈ E, w (f a) = ∑ a ∈ E, w a := by
  have himage : E = E.image f := Finset.eq_of_subset_of_card_le h Finset.card_image_le
  have hinj : Set.InjOn f E := Finset.card_image_iff.mp (congrArg Finset.card himage).symm
  calc ∑ a ∈ E, w (f a) = ∑ b ∈ E.image f, w b := (Finset.sum_image hinj).symm
    _ = ∑ a ∈ E, w a := by rw [← himage]

theorem eq_of_le_of_onto (h : E ⊆ E.image f) (hw : ∀ a ∈ E, w a ≤ w (f a)) :
    ∀ a ∈ E, w (f a) = w a := fun a ha =>
  ((Finset.sum_eq_sum_iff_of_le hw).mp (sum_comp_eq h w).symm a ha).symm

theorem eq_of_ge_of_onto (h : E ⊆ E.image f) (hw : ∀ a ∈ E, w (f a) ≤ w a) :
    ∀ a ∈ E, w (f a) = w a :=
  (Finset.sum_eq_sum_iff_of_le hw).mp (sum_comp_eq h w)

end Onto

end Lib
