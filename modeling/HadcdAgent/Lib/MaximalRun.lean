import Mathlib.Data.List.Basic

/-!
# Maximal runs

The stretches of a list on which a predicate holds and that no neighbour extends,
and the scan from left to right that collects them.
-/

namespace Lib

variable {α : Type*} {p : α → Bool}

/-- `run` is a stretch of `l` on which `p` holds and that no entry of `l` extends. -/
def MaximalRun (p : α → Bool) (l run : List α) : Prop :=
  ∃ before after, l = before ++ run ++ after ∧ run ≠ [] ∧ (∀ x ∈ run, p x = true) ∧
    (∀ x, before.getLast? = some x → p x = false) ∧ ∀ x, after.head? = some x → p x = false

/-- The scan of a list with the run that is under way. -/
def runsFrom (p : α → Bool) : List α → List α → List (List α)
  | run, [] => if run = [] then [] else [run]
  | run, x :: xs =>
    if p x then runsFrom p (run ++ [x]) xs
    else if run = [] then runsFrom p [] xs
    else run :: runsFrom p [] xs

theorem not_maximalRun_nil (run : List α) : ¬ MaximalRun p [] run := by
  rintro ⟨before, after, heq, hne, -⟩
  have hempty : before ++ run = [] := (List.append_eq_nil_iff.mp heq.symm).1
  exact hne (List.append_eq_nil_iff.mp hempty).2

theorem maximalRun_of_forall {l run : List α} (hl : ∀ x ∈ l, p x = true) (hne : l ≠ []) :
    MaximalRun p l run ↔ run = l := by
  constructor
  · rintro ⟨before, after, rfl, -, -, hbefore, hafter⟩
    have hfirst : before = [] := by
      by_contra hb
      have hlast := List.getLast_mem hb
      have hfalse := hbefore _ (List.getLast?_eq_some_getLast hb)
      rw [hl _ (by simp [hlast])] at hfalse
      cases hfalse
    have hrest : after = [] := by
      by_contra ha
      have hhead := List.head_mem ha
      have hfalse := hafter _ (List.head?_eq_some_head ha)
      rw [hl _ (by simp [hhead])] at hfalse
      cases hfalse
    rw [hfirst, hrest, List.nil_append, List.append_nil]
  · rintro rfl
    exact ⟨[], [], by simp, hne, hl, fun _ hx => (nomatch hx), fun _ hx => (nomatch hx)⟩

theorem maximalRun_front {front rest : List α} {x : α} (hfront : ∀ y ∈ front, p y = true)
    (hx : p x = false) (hne : front ≠ []) : MaximalRun p (front ++ x :: rest) front := by
  refine ⟨[], x :: rest, by simp, hne, hfront, fun _ hy => (nomatch hy), ?_⟩
  intro y hy
  cases hy
  exact hx

theorem MaximalRun.behind {front rest run : List α} {x : α} (hx : p x = false)
    (h : MaximalRun p rest run) : MaximalRun p (front ++ x :: rest) run := by
  obtain ⟨before, after, rfl, hne, hrun, hbefore, hafter⟩ := h
  refine ⟨front ++ x :: before, after, by simp, hne, hrun, ?_, hafter⟩
  intro y hy
  rw [List.getLast?_append, List.getLast?_cons] at hy
  cases hlast : before.getLast? with
  | none =>
    rw [hlast] at hy
    cases hy
    exact hx
  | some z =>
    rw [hlast] at hy
    cases hy
    exact hbefore z hlast

theorem MaximalRun.front_or_behind {front rest run : List α} {x : α}
    (hfront : ∀ y ∈ front, p y = true) (hx : p x = false)
    (h : MaximalRun p (front ++ x :: rest) run) :
    front ≠ [] ∧ run = front ∨ MaximalRun p rest run := by
  obtain ⟨before, after, heq, hne, hrun, hbefore, hafter⟩ := h
  rw [List.append_assoc] at heq
  rcases List.append_eq_append_iff.mp heq with ⟨c, hc, hsplit⟩ | ⟨c, hc, hsplit⟩
  · -- the run begins behind the front
    refine Or.inr ?_
    cases c with
    | nil =>
      obtain ⟨y, ys, rfl⟩ := List.exists_cons_of_ne_nil hne
      rw [List.nil_append, List.cons_append, List.cons.injEq] at hsplit
      rw [hsplit.1, hrun y (List.mem_cons_self ..)] at hx
      cases hx
    | cons y c =>
      rw [List.cons_append, List.cons.injEq] at hsplit
      refine ⟨c, after, by rw [hsplit.2, List.append_assoc], hne, hrun, ?_, hafter⟩
      intro z hz
      refine hbefore z ?_
      rw [hc, List.getLast?_append, List.getLast?_cons, hz]
      rfl
  · -- the run begins in the front, so it begins with it
    have hstart : before = [] := by
      by_contra hb
      have hlast : before.getLast hb ∈ front := by
        rw [hc]
        exact List.mem_append_left _ (List.getLast_mem hb)
      have hfalse := hbefore _ (List.getLast?_eq_some_getLast hb)
      rw [hfront _ hlast] at hfalse
      cases hfalse
    rw [hstart, List.nil_append] at hc
    subst hc
    rcases List.append_eq_append_iff.mp hsplit with ⟨d, hd, htail⟩ | ⟨d, hd, htail⟩
    · cases d with
      | nil =>
        rw [List.append_nil] at hd
        exact Or.inl ⟨fun hf => hne (hd ▸ hf), hd.symm⟩
      | cons y d =>
        have hy : p y = false := hafter y (by rw [htail]; rfl)
        rw [hfront y (by simp [hd])] at hy
        cases hy
    · cases d with
      | nil =>
        rw [List.append_nil] at hd
        exact Or.inl ⟨fun hf => hne (by rw [hd, hf]), hd⟩
      | cons y d =>
        rw [List.cons_append, List.cons.injEq] at htail
        have hy : p y = true := hrun y (by simp [hd])
        rw [← htail.1, hx] at hy
        cases hy

/-- The first entry without `p` ends the run before it; the others lie behind it. -/
theorem maximalRun_append_cons {front rest run : List α} {x : α}
    (hfront : ∀ y ∈ front, p y = true) (hx : p x = false) :
    MaximalRun p (front ++ x :: rest) run ↔ front ≠ [] ∧ run = front ∨ MaximalRun p rest run := by
  constructor
  · exact MaximalRun.front_or_behind hfront hx
  · intro h
    rcases h with ⟨hne, rfl⟩ | h
    · exact maximalRun_front hfront hx hne
    · exact h.behind hx

theorem mem_runsFrom_iff {front l run : List α} (hfront : ∀ x ∈ front, p x = true) :
    run ∈ runsFrom p front l ↔ MaximalRun p (front ++ l) run := by
  induction l generalizing front with
  | nil =>
    rw [runsFrom, List.append_nil]
    split_ifs with hempty
    · rw [hempty]
      exact ⟨fun h => (nomatch h), fun h => absurd h (not_maximalRun_nil run)⟩
    · rw [List.mem_singleton, maximalRun_of_forall hfront hempty]
  | cons x xs ih =>
    have hnil : ∀ y ∈ ([] : List α), p y = true := fun _ hy => (nomatch hy)
    rw [runsFrom]
    split_ifs with hx hempty
    · have hlonger : ∀ y ∈ front ++ [x], p y = true := by
        intro y hy
        rcases List.mem_append.mp hy with hold | hnew
        · exact hfront y hold
        · cases List.mem_singleton.mp hnew
          exact hx
      rw [ih hlonger, List.append_assoc, List.singleton_append]
    · rw [ih hnil, List.nil_append,
        maximalRun_append_cons hfront (by simpa using hx)]
      exact (or_iff_right fun hf => hf.1 hempty).symm
    · rw [List.mem_cons, ih hnil, List.nil_append,
        maximalRun_append_cons hfront (by simpa using hx)]
      exact or_congr_left (by simp [hempty])

end Lib
