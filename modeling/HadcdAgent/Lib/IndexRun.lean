import HadcdAgent.Lib.MaximalRun
import Mathlib.Tactic

/-!
# Runs of indices

The maximal intervals of indices on which a predicate holds, the scan that finds them
with the index at which the interval under way began, and the maximal runs of a list
as such intervals.
-/

namespace Lib

variable {P : ℕ → Prop} {i j : ℕ}

/-- `P` holds on `[i, j)` and not beside it. -/
structure IsRun (P : ℕ → Prop) (i j : ℕ) : Prop where
  lt : i < j
  inside : ∀ k, i ≤ k → k < j → P k
  left : ∀ k, k + 1 = i → ¬ P k
  right : ¬ P j

theorem IsRun.last (h : IsRun P i j) : P (j - 1) :=
  h.inside (j - 1) (Nat.le_sub_one_of_lt h.lt) (Nat.sub_one_lt (Nat.ne_zero_of_lt h.lt))

theorem IsRun.eq_or_apart {a b : ℕ} (h : IsRun P i j) (h' : IsRun P a b) :
    i = a ∧ j = b ∨ j < a ∨ b < i := by
  by_contra hnot
  rw [not_or, not_or, not_lt, not_lt] at hnot
  obtain ⟨hne, haj, hib⟩ := hnot
  -- a run that reaches into another one begins and ends with it
  have hstart : i = a := by
    rcases lt_trichotomy i a with hlt | heq | hlt
    · have hp : P (a - 1) := h.inside (a - 1) (by omega) (by omega)
      exact absurd hp (h'.left (a - 1) (by omega))
    · exact heq
    · have hp : P (i - 1) := h'.inside (i - 1) (by omega) (by omega)
      exact absurd hp (h.left (i - 1) (by omega))
  have hlt := h.lt
  have hlt' := h'.lt
  have hend : j = b := by
    rcases lt_trichotomy j b with hjb | heq | hbj
    · exact absurd (h'.inside j (by omega) hjb) h.right
    · exact heq
    · exact absurd (h.inside b (by omega) hbj) h'.right
  exact hne ⟨hstart, hend⟩

theorem IsRun.eq_of_mem {a b k : ℕ} (h : IsRun P i j) (h' : IsRun P a b)
    (hk : i ≤ k ∧ k < j) (hk' : a ≤ k ∧ k < b) : i = a ∧ j = b := by
  rcases h.eq_or_apart h' with heq | hlt | hlt
  · exact heq
  · omega
  · omega

theorem isRun_congr {Q : ℕ → Prop} (h : ∀ k, P k ↔ Q k) : IsRun P i j ↔ IsRun Q i j := by
  rw [show P = Q from funext fun k => propext (h k)]

/-! ### The scan -/

/-- The runs that end at `i` or later, given where the run under way at `i` began, if
there is one, and what holds from `i` on. -/
def scanRuns : ℕ → Option ℕ → List Bool → List (ℕ × ℕ)
  | _, none, [] => []
  | i, some start, [] => [(start, i)]
  | i, none, b :: bs => scanRuns (i + 1) (if b then some i else none) bs
  | i, some start, b :: bs =>
    if b then scanRuns (i + 1) (some start) bs else (start, i) :: scanRuns (i + 1) none bs

def UnderWay (P : ℕ → Prop) (i : ℕ) : Option ℕ → Prop
  | none => ∀ k, k + 1 = i → ¬ P k
  | some start => start < i ∧ (∀ k, start ≤ k → k < i → P k) ∧ ∀ k, k + 1 = start → ¬ P k

theorem IsRun.lt_of_underWay_none {a b : ℕ} (h : IsRun P a b) (hopen : UnderWay P i none)
    (hb : i ≤ b) : i < b := by
  rcases Nat.lt_or_eq_of_le hb with hlt | heq
  · exact hlt
  · have hlt := h.lt
    exact absurd h.last (hopen (b - 1) (by omega))

theorem isRun_at_iff {start a : ℕ} (hopen : UnderWay P i (some start)) (hi : ¬ P i) :
    IsRun P a i ↔ a = start := by
  have hrun : IsRun P start i := ⟨hopen.1, hopen.2.1, hopen.2.2, hi⟩
  constructor
  · intro h
    have hlast : i - 1 < i := Nat.sub_one_lt (Nat.ne_zero_of_lt h.lt)
    exact (h.eq_of_mem hrun ⟨Nat.le_sub_one_of_lt h.lt, hlast⟩
      ⟨Nat.le_sub_one_of_lt hopen.1, hlast⟩).1
  · rintro rfl
    exact hrun

theorem UnderWay.opened (hopen : UnderWay P i none) (hi : P i) : UnderWay P (i + 1) (some i) := by
  refine ⟨Nat.lt_succ_self i, fun k hk hk' => ?_, hopen⟩
  have heq : k = i := by omega
  rw [heq]
  exact hi

theorem UnderWay.extended {start : ℕ} (hopen : UnderWay P i (some start)) (hi : P i) :
    UnderWay P (i + 1) (some start) := by
  refine ⟨Nat.lt_succ_of_lt hopen.1, fun k hk hk' => ?_, hopen.2.2⟩
  rcases Nat.lt_or_eq_of_le (Nat.le_of_lt_succ hk') with hlt | rfl
  · exact hopen.2.1 k hk hlt
  · exact hi

theorem underWay_succ_none (hi : ¬ P i) : UnderWay P (i + 1) none := by
  intro k hk hp
  have heq : k = i := by omega
  exact hi (heq ▸ hp)

theorem isRun_succ_le_iff {a b : ℕ} (hno : ¬ IsRun P a i) :
    IsRun P a b ∧ i + 1 ≤ b ↔ IsRun P a b ∧ i ≤ b := by
  refine and_congr_right fun hrun => ⟨fun h => by omega, fun h => ?_⟩
  rcases Nat.lt_or_eq_of_le h with hlt | rfl
  · exact hlt
  · exact absurd hrun hno

theorem mem_scanRuns_nil {start : Option ℕ} (hopen : UnderWay P i start)
    (hout : ∀ k, i ≤ k → ¬ P k) {a b : ℕ} :
    (a, b) ∈ scanRuns i start [] ↔ IsRun P a b ∧ i ≤ b := by
  cases start with
  | none =>
    refine iff_of_false (fun h => (nomatch h)) ?_
    rintro ⟨hrun, hb⟩
    have hlt := hrun.lt_of_underWay_none hopen hb
    exact hout (b - 1) (by omega) hrun.last
  | some start =>
    rw [scanRuns, List.mem_singleton, Prod.mk.injEq]
    constructor
    · rintro ⟨rfl, rfl⟩
      exact ⟨(isRun_at_iff hopen (hout b le_rfl)).mpr rfl, le_rfl⟩
    · rintro ⟨hrun, hb⟩
      have hend : b = i := by
        by_contra hne
        exact hout (b - 1) (by omega) hrun.last
      subst hend
      exact ⟨(isRun_at_iff hopen hrun.right).mp hrun, rfl⟩

theorem mem_scanRuns_iff {bs : List Bool} {start : Option ℕ} (hopen : UnderWay P i start)
    (hbs : ∀ k, P (i + k) ↔ bs[k]? = some true) {a b : ℕ} :
    (a, b) ∈ scanRuns i start bs ↔ IsRun P a b ∧ i ≤ b := by
  induction bs generalizing i start with
  | nil =>
    refine mem_scanRuns_nil hopen fun k hk hp => ?_
    have hnone := (hbs (k - i)).mp (by rwa [Nat.add_sub_of_le hk])
    cases hnone
  | cons c bs ih =>
    have hhere : P i ↔ c = true := by simpa using hbs 0
    have hrest : ∀ k, P (i + 1 + k) ↔ bs[k]? = some true := by
      intro k
      have hk := hbs (k + 1)
      rw [List.getElem?_cons_succ] at hk
      rw [← hk, Nat.add_assoc, Nat.add_comm 1 k]
    -- a run that ends at `i` is the one under way, and only where `P` fails at `i`
    cases start with
    | none =>
      rw [scanRuns]
      have hno : ¬ IsRun P a i := fun h => absurd (h.lt_of_underWay_none hopen le_rfl) (lt_irrefl i)
      refine (ih ?_ hrest).trans (isRun_succ_le_iff hno)
      cases hc : c with
      | true => exact hopen.opened (hhere.mpr hc)
      | false => exact underWay_succ_none (by rw [hhere, hc]; decide)
    | some start =>
      rw [scanRuns]
      cases hc : c with
      | true =>
        have hi : P i := hhere.mpr hc
        exact (ih (hopen.extended hi) hrest).trans (isRun_succ_le_iff fun h => h.right hi)
      | false =>
        have hi : ¬ P i := by
          rw [hhere, hc]
          decide
        rw [if_neg (by decide), List.mem_cons, ih (underWay_succ_none hi) hrest, Prod.mk.injEq]
        constructor
        · rintro (⟨rfl, rfl⟩ | ⟨hrun, hb⟩)
          · exact ⟨(isRun_at_iff hopen hi).mpr rfl, le_rfl⟩
          · exact ⟨hrun, by omega⟩
        · rintro ⟨hrun, hb⟩
          rcases Nat.lt_or_eq_of_le hb with hlt | rfl
          · exact Or.inr ⟨hrun, hlt⟩
          · exact Or.inl ⟨(isRun_at_iff hopen hi).mp hrun, rfl⟩

theorem le_of_mem_scanRuns {bs : List Bool} {start : Option ℕ} (hstart : start.getD i ≤ i)
    {a b : ℕ} (h : (a, b) ∈ scanRuns i start bs) : start.getD i ≤ a := by
  induction bs generalizing i start with
  | nil =>
    cases start with
    | none => cases h
    | some start =>
      rw [scanRuns, List.mem_singleton] at h
      cases h
      exact le_rfl
  | cons c bs ih =>
    cases start with
    | none =>
      rw [scanRuns] at h
      cases c with
      | true =>
        have hle : (some i).getD (i + 1) ≤ a := ih (Nat.le_succ i) h
        exact hle
      | false => exact (Nat.le_succ i).trans (ih le_rfl h)
    | some start =>
      rw [scanRuns] at h
      cases c with
      | true =>
        have hle : (some start).getD (i + 1) ≤ a := ih (Nat.le_succ_of_le hstart) h
        exact hle
      | false =>
        rcases List.mem_cons.mp h with heq | h
        · cases heq
          exact le_rfl
        · exact hstart.trans ((Nat.le_succ i).trans (ih le_rfl h))

theorem pairwise_scanRuns (i : ℕ) (start : Option ℕ) (bs : List Bool) :
    (scanRuns i start bs).Pairwise fun r s => r.2 < s.1 := by
  induction bs generalizing i start with
  | nil =>
    cases start with
    | none => exact List.Pairwise.nil
    | some start => exact List.pairwise_singleton _ _
  | cons c bs ih =>
    cases start with
    | none => exact ih (i + 1) _
    | some start =>
      cases c with
      | true => exact ih (i + 1) (some start)
      | false =>
        refine List.pairwise_cons.mpr ⟨fun r hr => ?_, ih (i + 1) none⟩
        have hstart : (none : Option ℕ).getD (i + 1) ≤ i + 1 := le_rfl
        exact le_of_mem_scanRuns hstart hr

def runs (bs : List Bool) : List (ℕ × ℕ) := scanRuns 0 none bs

theorem mem_runs_iff {bs : List Bool} {a b : ℕ} :
    (a, b) ∈ runs bs ↔ IsRun (fun k => bs[k]? = some true) a b := by
  have hopen : UnderWay (fun k => bs[k]? = some true) 0 none := fun k hk => absurd hk (by omega)
  rw [runs, mem_scanRuns_iff hopen fun k => by rw [Nat.zero_add]]
  exact and_iff_left (Nat.zero_le b)

/-! ### The runs of a list -/

section List

variable {α : Type*} {p : α → Bool} {l : List α}

/-- `p` holds of the entry at the index. -/
def HoldsAt (p : α → Bool) (l : List α) (k : ℕ) : Prop := ∃ x, l[k]? = some x ∧ p x = true

theorem IsRun.le_length (h : IsRun (HoldsAt p l) i j) : j ≤ l.length := by
  obtain ⟨x, hx, -⟩ := h.last
  have hlast := (List.getElem?_eq_some_iff.mp hx).1
  omega

theorem length_zip_of_eq {β : Type*} {m : List β} (h : l.length = m.length) :
    (l.zip m).length = l.length := by
  rw [List.length_zip, h, Nat.min_self]

/-- The entries at the indices `[i, j)`. -/
def slice (l : List α) (i j : ℕ) : List α := (l.drop i).take (j - i)

theorem getElem?_slice {k : ℕ} : (slice l i j)[k]? = if k < j - i then l[i + k]? else none := by
  rw [slice, List.getElem?_take, List.getElem?_drop]

theorem length_slice (hj : j ≤ l.length) : (slice l i j).length = j - i := by
  rw [slice, List.length_take, List.length_drop]
  omega

theorem slice_ne_nil (h : i < j) (hj : j ≤ l.length) : slice l i j ≠ [] := by
  intro hnil
  have hlength := length_slice (i := i) hj
  rw [hnil, List.length_nil] at hlength
  omega

theorem head?_slice (h : i < j) : (slice l i j).head? = l[i]? := by
  rw [List.head?_eq_getElem?, getElem?_slice, if_pos (Nat.sub_pos_of_lt h), Nat.add_zero]

theorem getLast?_slice (h : i < j) (hj : j ≤ l.length) : (slice l i j).getLast? = l[j - 1]? := by
  rw [List.getLast?_eq_getElem?, length_slice hj, getElem?_slice, if_pos (by omega)]
  congr 1
  omega

theorem slice_succ {s : ℕ} {x : α} (hs : s ≤ i) (hx : l[i]? = some x) :
    slice l s (i + 1) = slice l s i ++ [x] := by
  rw [slice, slice, Nat.succ_sub hs, List.take_add_one, List.getElem?_drop,
    Nat.add_sub_of_le hs, hx]
  rfl

theorem slice_append (before run after : List α) :
    slice (before ++ run ++ after) before.length (before.length + run.length) = run := by
  rw [slice, List.append_assoc, List.drop_left, Nat.add_sub_cancel_left, List.take_left]

theorem append_slice (hi : i ≤ j) : l = l.take i ++ slice l i j ++ l.drop j := by
  rw [slice, List.append_assoc]
  have hdrop : l.drop j = (l.drop i).drop (j - i) := by
    rw [List.drop_drop]
    congr 1
    omega
  rw [hdrop, List.take_append_drop, List.take_append_drop]

theorem getElem?_within (before run after : List α) {d : ℕ} (hd : d < run.length) :
    (before ++ run ++ after)[before.length + d]? = some run[d] := by
  rw [List.append_assoc, List.getElem?_append_right (Nat.le_add_right _ _),
    Nat.add_sub_cancel_left, List.getElem?_append_left hd, List.getElem?_eq_getElem hd]

theorem isRun_of_append {before run after : List α} (hne : run ≠ []) (hrun : ∀ x ∈ run, p x = true)
    (hbefore : ∀ x, before.getLast? = some x → p x = false)
    (hafter : ∀ x, after.head? = some x → p x = false) :
    IsRun (HoldsAt p (before ++ run ++ after)) before.length (before.length + run.length) := by
  have hlen : 0 < run.length := List.length_pos_iff.mpr hne
  refine ⟨by omega, ?_, ?_, ?_⟩
  · intro k hk hk'
    obtain ⟨d, rfl⟩ := Nat.exists_eq_add_of_le hk
    have hd : d < run.length := by omega
    exact ⟨run[d], getElem?_within before run after hd, hrun _ (List.getElem_mem hd)⟩
  · rintro k hk ⟨x, hx, hpx⟩
    have hlast : before.getLast? = some x := by
      rw [List.getLast?_eq_getElem?, ← hx, List.append_assoc,
        List.getElem?_append_left (by omega)]
      congr 1
      omega
    rw [hbefore x hlast] at hpx
    cases hpx
  · rintro ⟨x, hx, hpx⟩
    have hhead : after.head? = some x := by
      rw [List.head?_eq_getElem?, ← hx, List.getElem?_append_right (by simp)]
      simp
    rw [hafter x hhead] at hpx
    cases hpx

theorem IsRun.of_mem_slice (h : IsRun (HoldsAt p l) i j) {x : α} (hx : x ∈ slice l i j) :
    p x = true := by
  have hj := h.le_length
  obtain ⟨k, hk, rfl⟩ := List.getElem_of_mem hx
  rw [length_slice hj] at hk
  have hget := getElem?_slice (l := l) (i := i) (j := j) (k := k)
  rw [if_pos hk, List.getElem?_eq_getElem (by rwa [length_slice hj])] at hget
  obtain ⟨y, hy, hpy⟩ := h.inside (i + k) (Nat.le_add_right i k) (by omega)
  rw [hy] at hget
  rwa [Option.some.inj hget]

theorem maximalRun_iff {run : List α} :
    MaximalRun p l run ↔ ∃ i j, IsRun (HoldsAt p l) i j ∧ run = slice l i j := by
  constructor
  · rintro ⟨before, after, rfl, hne, hrun, hbefore, hafter⟩
    exact ⟨before.length, before.length + run.length, isRun_of_append hne hrun hbefore hafter,
      (slice_append before run after).symm⟩
  · rintro ⟨i, j, h, rfl⟩
    have hj := h.le_length
    refine ⟨l.take i, l.drop j, append_slice h.lt.le, slice_ne_nil h.lt hj,
      fun x => h.of_mem_slice, ?_, ?_⟩
    · intro x hx
      rw [List.getLast?_take] at hx
      by_contra hpx
      split_ifs at hx with hi
      have hlt := h.lt
      have hget : l[i - 1]? = some x := by
        rw [List.getElem?_eq_getElem (by omega)] at hx ⊢
        simpa using hx
      exact h.left (i - 1) (by omega) ⟨x, hget, by simpa using hpx⟩
    · intro x hx
      rw [List.head?_drop] at hx
      by_contra hpx
      exact h.right ⟨x, hx, by simpa using hpx⟩

end List

end Lib
