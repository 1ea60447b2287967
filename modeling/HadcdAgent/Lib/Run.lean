import Mathlib.Data.List.Basic
import Mathlib.Data.List.Induction

/-!
# Runs of a guarded step function

A system is a step function `σ → ι → Option σ` (`none`: the input is not
enabled). A run feeds a list of inputs; `Along` states a property of every step
a run takes. The rules below carry an invariant, a guarded invariant, and an
equivalence between a property of the steps and a guard on them along a run.
-/

namespace Lib.Run

variable {σ ι : Type*}

def total (f : σ → ι → σ) : σ → ι → Option σ := fun s i => some (f s i)

/-- The state after the inputs, `none` when one of them is not enabled. -/
def exec (step : σ → ι → Option σ) : σ → List ι → Option σ
  | s, [] => some s
  | s, i :: is => (step s i).bind fun t => exec step t is

/-- `P` holds of every step (state before it, input) that the run takes. -/
def Along (step : σ → ι → Option σ) (P : σ → ι → Prop) : σ → List ι → Prop
  | _, [] => True
  | s, i :: is => P s i ∧ ∀ t, step s i = some t → Along step P t is

/-- `G` holds of every step taken, seen with the state after it. -/
def AlongSteps (step : σ → ι → Option σ) (G : σ → ι → σ → Prop) : σ → List ι → Prop :=
  Along step fun s i => ∀ t, step s i = some t → G s i t

variable {step : σ → ι → Option σ} {P Q : σ → ι → Prop} {G : σ → ι → σ → Prop} {Inv : σ → Prop}

theorem exec_cons_eq_some {s u : σ} {i : ι} {is : List ι} (h : exec step s (i :: is) = some u) :
    ∃ t, step s i = some t ∧ exec step t is = some u :=
  Option.bind_eq_some_iff.mp h

theorem exec_append (s : σ) (is js : List ι) :
    exec step s (is ++ js) = (exec step s is).bind fun t => exec step t js := by
  induction is generalizing s with
  | nil => rfl
  | cons i is ih =>
    rw [List.cons_append, exec, exec, Option.bind_assoc]
    congr 1
    funext t
    exact ih t

theorem along_cons_iff {s : σ} {i : ι} {is : List ι} :
    Along step P s (i :: is) ↔ P s i ∧ ∀ t, step s i = some t → Along step P t is := Iff.rfl

instance decidableAlong [∀ s i, Decidable (P s i)] : ∀ s is, Decidable (Along step P s is)
  | _, [] => isTrue trivial
  | s, i :: is =>
    match h : step s i with
    | none => decidable_of_iff (P s i)
      ⟨fun hp => ⟨hp, fun _ ht => by rw [h] at ht; cases ht⟩, fun hp => hp.1⟩
    | some t =>
      have := decidableAlong t is
      decidable_of_iff (P s i ∧ Along step P t is)
        ⟨fun hp => ⟨hp.1, fun _ ht => Option.some.inj (h.symm.trans ht) ▸ hp.2⟩,
          fun hp => ⟨hp.1, hp.2 t h⟩⟩

theorem Along.mono {s : σ} {is : List ι} (h : Along step P s is)
    (hpq : ∀ s i, P s i → Q s i) : Along step Q s is := by
  induction is generalizing s with
  | nil => trivial
  | cons i is ih => exact ⟨hpq s i h.1, fun t ht => ih (h.2 t ht)⟩

theorem Along.at {s t : σ} {is js : List ι} {i : ι} (h : Along step P s (is ++ i :: js))
    (ht : exec step s is = some t) : P t i := by
  induction is generalizing s with
  | nil => cases ht; exact h.1
  | cons j is ih =>
    obtain ⟨u, hu, ht⟩ := exec_cons_eq_some ht
    exact ih (h.2 u hu) ht

theorem along_append_iff {s : σ} {is js : List ι} : Along step P s (is ++ js) ↔
    Along step P s is ∧ ∀ t, exec step s is = some t → Along step P t js := by
  induction is generalizing s with
  | nil => exact ⟨fun h => ⟨trivial, fun t ht => by cases ht; exact h⟩, fun h => h.2 s rfl⟩
  | cons i is ih =>
    rw [List.cons_append, along_cons_iff, along_cons_iff, and_assoc]
    refine and_congr_right fun _ => ⟨fun h => ⟨?_, ?_⟩, fun h t ht => ?_⟩
    · intro t ht
      exact (ih.mp (h t ht)).1
    · intro u hu
      obtain ⟨t, ht, hu⟩ := exec_cons_eq_some hu
      exact (ih.mp (h t ht)).2 u hu
    · refine ih.mpr ⟨h.1 t ht, fun u hu => h.2 u ?_⟩
      rw [exec, ht]
      exact hu

theorem along_of_before {s : σ} {is : List ι}
    (h : ∀ before i after t, is = before ++ i :: after → exec step s before = some t →
      Along step P s before → P t i) : Along step P s is := by
  induction is using List.reverseRecOn with
  | nil => trivial
  | append_singleton is i ih =>
    have hbefore : Along step P s is := by
      refine ih fun before j after t hsplit => h before j (after ++ [i]) t ?_
      rw [hsplit, List.append_assoc, List.cons_append]
    exact along_append_iff.mpr
      ⟨hbefore, fun t ht => ⟨h is i [] t rfl ht hbefore, fun _ _ => trivial⟩⟩

theorem along_of_at {s : σ} {is : List ι}
    (h : ∀ before i after t, is = before ++ i :: after → exec step s before = some t → P t i) :
    Along step P s is :=
  along_of_before fun before i after t hsplit ht _ => h before i after t hsplit ht

theorem along_of_forall (step : σ → ι → Option σ) {s : σ} {is : List ι}
    (h : ∀ i ∈ is, ∀ s, P s i) : Along step P s is := by
  induction is generalizing s with
  | nil => trivial
  | cons i is ih =>
    exact ⟨h i (List.mem_cons_self ..) s,
      fun t _ => ih fun j hj => h j (List.mem_cons_of_mem i hj)⟩

theorem Along.and {s : σ} {is : List ι} (hp : Along step P s is) (hq : Along step Q s is) :
    Along step (fun s i => P s i ∧ Q s i) s is := by
  induction is generalizing s with
  | nil => trivial
  | cons i is ih => exact ⟨⟨hp.1, hq.1⟩, fun t ht => ih (hp.2 t ht) (hq.2 t ht)⟩

/-- An invariant kept by every guarded step holds after a run whose steps all
meet the guard. -/
theorem exec_invariant (hstep : ∀ s i t, Inv s → P s i → step s i = some t → Inv t)
    {s u : σ} {is : List ι} (h0 : Inv s) (hp : Along step P s is)
    (hrun : exec step s is = some u) : Inv u := by
  induction is generalizing s with
  | nil => cases hrun; exact h0
  | cons i is ih =>
    obtain ⟨t, ht, hu⟩ := exec_cons_eq_some hrun
    exact ih (hstep s i t h0 hp.1 ht) (hp.2 t ht) hu

/-- A property of steps follows along a run from the invariant and the guard. -/
theorem along_of_invariant (hstep : ∀ s i t, Inv s → P s i → step s i = some t → Inv t)
    (hprop : ∀ s i, Inv s → P s i → Q s i)
    {s : σ} {is : List ι} (h0 : Inv s) (hp : Along step P s is) : Along step Q s is := by
  induction is generalizing s with
  | nil => trivial
  | cons i is ih =>
    exact ⟨hprop s i h0 hp.1, fun t ht => ih (hstep s i t h0 hp.1 ht) (hp.2 t ht)⟩

theorem exec_preserves (hstep : ∀ s i t, Inv s → step s i = some t → Inv t)
    {s u : σ} {is : List ι} (h0 : Inv s) (hrun : exec step s is = some u) : Inv u := by
  induction is generalizing s with
  | nil => cases hrun; exact h0
  | cons i is ih =>
    obtain ⟨t, ht, hu⟩ := exec_cons_eq_some hrun
    exact ih (hstep s i t h0 ht) hu

theorem along_congr (hstep : ∀ s i t, Inv s → step s i = some t → Inv t)
    (hiff : ∀ s i, Inv s → (P s i ↔ Q s i)) {s : σ} {is : List ι} (h0 : Inv s) :
    Along step P s is ↔ Along step Q s is := by
  induction is generalizing s with
  | nil => exact Iff.rfl
  | cons i is ih =>
    simp only [along_cons_iff, hiff s i h0]
    exact and_congr_right fun _ => forall₂_congr fun t ht => ih (hstep s i t h0 ht)

theorem along_iff (h : ∀ s i, P s i ↔ Q s i) {s : σ} {is : List ι} :
    Along step P s is ↔ Along step Q s is :=
  ⟨fun hp => hp.mono fun s i => (h s i).mp, fun hq => hq.mono fun s i => (h s i).mpr⟩

/-- The exact-guard rule. While the guard is met the invariant is kept and gives
the property of the step; a step that has the property meets the guard. Then the
property holds along a run exactly when the guard does. -/
theorem alongSteps_iff_guard
    (hkeep : ∀ s i t, Inv s → P s i → step s i = some t → Inv t ∧ G s i t)
    (hback : ∀ s i, Inv s → (∀ t, step s i = some t → G s i t) → P s i)
    {s : σ} {is : List ι} (h0 : Inv s) :
    AlongSteps step G s is ↔ Along step P s is := by
  constructor
  · intro hg
    induction is generalizing s with
    | nil => trivial
    | cons i is ih =>
      have hp : P s i := hback s i h0 hg.1
      exact ⟨hp, fun t ht => ih (hkeep s i t h0 hp ht).1 (hg.2 t ht)⟩
  · intro hp
    exact along_of_invariant (fun s i t hi hp ht => (hkeep s i t hi hp ht).1)
      (fun s i hi hp t ht => (hkeep s i t hi hp ht).2) h0 hp

end Lib.Run
