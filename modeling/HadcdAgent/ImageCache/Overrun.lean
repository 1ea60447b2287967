import HadcdAgent.ImageCache.Gc

/-!
# The images that a garbage collection takes

`maybe_gc` measures the images by the sum of their sizes. What they take on the disk is
the sum over their distinct layers.
-/

namespace HadcdAgent.ImageCache

open Lib

section

variable {layer : Type} {bytes : layer → ℕ} {budgetGb : ℚ} {docker : Docker}
  {images : List (Image layer)} {i : Image layer}

/-! ### What is pruned -/

theorem pruneDangling_sublist (images : List (Image layer)) :
    (pruneDangling images).Sublist images :=
  List.filter_sublist

theorem pruneUnused_sublist (images : List (Image layer)) : (pruneUnused images).Sublist images :=
  List.filter_sublist

theorem carry_of_ne_refused {prune : List (Image layer) → List (Image layer)} {r : Reply}
    (h : r ≠ .refused) : r.carry prune images = prune images := by
  cases r with
  | done => rfl
  | refused => exact absurd rfl h
  | lost => rfl

theorem carry_induction {motive : List (Image layer) → Prop}
    {prune : List (Image layer) → List (Image layer)} {r : Reply} (kept : motive images)
    (pruned : r ≠ .refused → motive (prune images)) : motive (r.carry prune images) := by
  by_cases hrefused : r = .refused
  · rw [hrefused]
    exact kept
  · rw [carry_of_ne_refused hrefused]
    exact pruned hrefused

theorem mem_pruneDangling_of_tagged (hi : i ∈ images) (htagged : i.tagged = true) :
    i ∈ pruneDangling images :=
  List.mem_filter.mpr ⟨hi, by rw [htagged, Bool.true_or]⟩

/-- A dangling prune leaves no untagged image that is unused. -/
theorem tagged_of_mem_pruneDangling (hi : i ∈ pruneDangling images) (hused : i.used = false) :
    i.tagged = true := by
  have h := (List.mem_filter.mp hi).2
  rwa [hused, Bool.or_false] at h

theorem imageBytes_mono {few many : List (Image layer)} (h : few.Sublist many) :
    imageBytes bytes few ≤ imageBytes bytes many :=
  (h.map _).sum_le_sum fun _ _ => Nat.zero_le _

/-! ### What `maybe_gc` does -/

def Measure.answers (m : Measure) : Bool := m.df || m.list

/-- The first measurement comes about. -/
def Docker.ready (docker : Docker) : Bool :=
  docker.imports && docker.connects && docker.first.answers

/-- The second one does, if the first is over the budget. -/
def Docker.readyAgain (docker : Docker) : Bool :=
  docker.ready && docker.dangling == .done && docker.second.answers

def Over (bytes : layer → ℕ) (budgetGb : ℚ) (images : List (Image layer)) : Prop :=
  budgetBytes budgetGb ≠ 0 ∧ budgetBytes budgetGb < imageBytes bytes images

theorem totalImageBytes_eq (m : Measure) : totalImageBytes bytes images m =
    if m.answers then some (imageBytes bytes images) else none := by
  obtain ⟨df, list⟩ := m
  cases df <;> rfl

theorem maybeGc_idle (h : ¬ (docker.ready = true ∧ Over bytes budgetGb images)) :
    maybeGc bytes budgetGb docker images = ([], images) := by
  unfold maybeGc
  split
  · rfl
  · rename_i hbudget
    split
    · rfl
    · rename_i hreach
      rw [totalImageBytes_eq]
      by_cases hanswers : docker.first.answers = true
      · have hready : docker.ready = true := by
          simp only [Bool.or_eq_true, Bool.not_eq_true', not_or, Bool.not_eq_false] at hreach
          simp only [Docker.ready, hreach.1, hreach.2, hanswers, Bool.and_self]
        have hle : imageBytes bytes images ≤ budgetBytes budgetGb := by
          by_contra hover
          exact h ⟨hready, hbudget, by omega⟩
        simp only [hanswers, if_true, hle]
      · simp only [hanswers, if_false, Bool.false_eq_true]

/-- A run whose first measurement is over the budget, up to the second one. -/
theorem maybeGc_over (hready : docker.ready = true) (hover : Over bytes budgetGb images) :
    maybeGc bytes budgetGb docker images =
      let left := docker.dangling.carry pruneDangling images
      if docker.dangling = .done ∧ docker.second.answers = true ∧
          budgetBytes budgetGb < imageBytes bytes left then
        ([.dangling, .unused], docker.unused.carry pruneUnused left)
      else ([.dangling], left) := by
  simp only [Docker.ready, Bool.and_eq_true] at hready
  obtain ⟨⟨himports, hconnects⟩, hanswers⟩ := hready
  unfold maybeGc
  rw [if_neg hover.1, if_neg (by simp only [himports, hconnects]; decide), totalImageBytes_eq,
    if_pos hanswers]
  simp only
  rw [if_neg (by have := hover.2; omega)]
  by_cases hdone : docker.dangling = .done
  · rw [if_neg (not_not_intro hdone), totalImageBytes_eq]
    by_cases hagain : docker.second.answers = true
    · simp only [hagain, if_true, hdone, true_and, ← not_lt, ite_not]
    · simp only [hagain, if_false, false_and, and_false, Bool.false_eq_true]
  · rw [if_pos hdone, if_neg (by tauto)]

theorem maybeGc_dangling (hready : docker.ready = true) (hover : Over bytes budgetGb images)
    (h : ¬ (docker.readyAgain = true ∧ Over bytes budgetGb (pruneDangling images))) :
    maybeGc bytes budgetGb docker images =
      ([.dangling], docker.dangling.carry pruneDangling images) := by
  rw [maybeGc_over hready hover]
  refine if_neg ?_
  rintro ⟨hdone, hanswers, hmore⟩
  rw [hdone] at hmore
  refine h ⟨?_, hover.1, hmore⟩
  simp only [Docker.readyAgain, hready, hdone, hanswers, beq_self_eq_true, Bool.and_self]

theorem ready_of_readyAgain (h : docker.readyAgain = true) :
    docker.ready = true ∧ docker.dangling ≠ .refused := by
  simp only [Docker.readyAgain, Bool.and_eq_true, beq_iff_eq] at h
  refine ⟨h.1.1, ?_⟩
  rw [h.1.2]
  decide

theorem over_of_pruneDangling (h : Over bytes budgetGb (pruneDangling images)) :
    Over bytes budgetGb images :=
  ⟨h.1, h.2.trans_le (imageBytes_mono (pruneDangling_sublist images))⟩

theorem maybeGc_unused (hagain : docker.readyAgain = true)
    (hover : Over bytes budgetGb (pruneDangling images)) :
    maybeGc bytes budgetGb docker images =
      ([.dangling, .unused], docker.unused.carry pruneUnused (pruneDangling images)) := by
  simp only [Docker.readyAgain, Bool.and_eq_true, beq_iff_eq] at hagain
  obtain ⟨⟨hready, hdone⟩, hanswers⟩ := hagain
  rw [maybeGc_over hready (over_of_pruneDangling hover), hdone]
  exact if_pos ⟨rfl, hanswers, hover.2⟩

theorem maybeGc_cases (bytes : layer → ℕ) (budgetGb : ℚ) (docker : Docker)
    (images : List (Image layer)) :
    (maybeGc bytes budgetGb docker images = ([], images) ∧
      ¬ (docker.ready = true ∧ Over bytes budgetGb images)) ∨
    (maybeGc bytes budgetGb docker images =
        ([.dangling], docker.dangling.carry pruneDangling images) ∧
      docker.ready = true ∧ Over bytes budgetGb images) ∨
    (maybeGc bytes budgetGb docker images =
        ([.dangling, .unused], docker.unused.carry pruneUnused (pruneDangling images)) ∧
      docker.readyAgain = true ∧ Over bytes budgetGb (pruneDangling images)) := by
  by_cases hsecond : docker.readyAgain = true ∧ Over bytes budgetGb (pruneDangling images)
  · exact Or.inr (Or.inr ⟨maybeGc_unused hsecond.1 hsecond.2, hsecond⟩)
  · by_cases hfirst : docker.ready = true ∧ Over bytes budgetGb images
    · exact Or.inr (Or.inl ⟨maybeGc_dangling hfirst.1 hfirst.2 hsecond, hfirst⟩)
    · exact Or.inl ⟨maybeGc_idle hfirst, hfirst⟩

/-- Only the second prune takes a tagged image. -/
theorem unused_of_tagged_lost (hi : i ∈ images) (htagged : i.tagged = true)
    (hlost : i ∉ (maybeGc bytes budgetGb docker images).2) :
    docker.readyAgain = true ∧ docker.unused ≠ .refused ∧
      Over bytes budgetGb (pruneDangling images) ∧ i.used = false := by
  have hkept := mem_pruneDangling_of_tagged hi htagged
  rcases maybeGc_cases bytes budgetGb docker images with ⟨heq, -⟩ | ⟨heq, -⟩ | ⟨heq, hagain, hover⟩
  · rw [heq] at hlost
    exact absurd hi hlost
  · rw [heq] at hlost
    exact absurd (carry_induction (motive := (i ∈ ·)) hi fun _ => hkept) hlost
  · rw [heq] at hlost
    have hrefused : docker.unused ≠ .refused := by
      intro hrefused
      rw [hrefused] at hlost
      exact hlost hkept
    rw [carry_of_ne_refused hrefused] at hlost
    refine ⟨hagain, hrefused, hover, ?_⟩
    by_contra hused
    exact hlost (List.mem_filter.mpr ⟨hkept, Bool.eq_true_of_not_eq_false hused⟩)

end

/-! ### The disk -/

section

variable {layer : Type} [DecidableEq layer] {bytes : layer → ℕ} {budgetGb : ℚ} {docker : Docker}
  {images : List (Image layer)} {i : Image layer}

/-- The bytes of the distinct layers on the disk. -/
def diskBytes (bytes : layer → ℕ) (images : List (Image layer)) : ℕ :=
  ∑ l ∈ unionAll (images.map Image.layers), bytes l

def Overrun (bytes : layer → ℕ) (budgetGb : ℚ) (images : List (Image layer)) : Prop :=
  budgetGb * gib < diskBytes bytes images

/-- Image GC acts only on a real overrun. -/
structure ActsOnOverrun (bytes : layer → ℕ) (budgetGb : ℚ) (docker : Docker)
    (images : List (Image layer)) : Prop where
  nothing : ¬ Overrun bytes budgetGb images → (maybeGc bytes budgetGb docker images).2 = images
  tagged : ∀ i ∈ images, i.tagged = true → i ∉ (maybeGc bytes budgetGb docker images).2 →
    Overrun bytes budgetGb (pruneDangling images)

/-- The images are over the budget only as shared layers are counted for each image. -/
def Overcounted (bytes : layer → ℕ) (budgetGb : ℚ) (images : List (Image layer)) : Prop :=
  Over bytes budgetGb images ∧ ¬ Overrun bytes budgetGb images

/-- Where a measurement overcounts, what would be pruned after it is not there. -/
structure Harmless (bytes : layer → ℕ) (budgetGb : ℚ) (docker : Docker)
    (images : List (Image layer)) : Prop where
  dangling : docker.ready = true → docker.dangling ≠ .refused →
    Overcounted bytes budgetGb images → pruneDangling images = images
  unused : docker.readyAgain = true → docker.unused ≠ .refused →
    Overcounted bytes budgetGb (pruneDangling images) →
      pruneUnused (pruneDangling images) = pruneDangling images

theorem diskBytes_le_imageBytes (bytes : layer → ℕ) (images : List (Image layer)) :
    diskBytes bytes images ≤ imageBytes bytes images := by
  have h := sum_unionAll_le (images.map Image.layers) bytes
  rwa [List.map_map] at h

theorem budgetBytes_of_ne_zero (h : budgetBytes budgetGb ≠ 0) :
    0 ≤ budgetGb * gib ∧ budgetBytes budgetGb = ⌊budgetGb * gib⌋₊ := by
  have hpos : 0 < budgetGb := by
    by_contra hneg
    exact h (if_neg hneg)
  exact ⟨mul_nonneg hpos.le (by norm_num [gib]), if_pos hpos⟩

theorem over_of_overrun (hbudget : budgetBytes budgetGb ≠ 0)
    (h : Overrun bytes budgetGb images) : Over bytes budgetGb images := by
  obtain ⟨hnonneg, hfloor⟩ := budgetBytes_of_ne_zero hbudget
  have hdisk : budgetBytes budgetGb < diskBytes bytes images := by
    rw [hfloor]
    exact (Nat.floor_lt hnonneg).mpr h
  exact ⟨hbudget, hdisk.trans_le (diskBytes_le_imageBytes bytes images)⟩

/-- An overrun is not missed, as no layer is left out of the sum. -/
theorem dangling_mem_of_overrun (hready : docker.ready = true)
    (hbudget : budgetBytes budgetGb ≠ 0) (h : Overrun bytes budgetGb images) :
    Prune.dangling ∈ (maybeGc bytes budgetGb docker images).1 := by
  rcases maybeGc_cases bytes budgetGb docker images with ⟨-, hidle⟩ | ⟨heq, -⟩ | ⟨heq, -⟩
  · exact absurd ⟨hready, over_of_overrun hbudget h⟩ hidle
  · rw [heq]
    exact List.mem_cons_self
  · rw [heq]
    exact List.mem_cons_self

/-! ### Images apart -/

theorem diskBytes_of_disjoint (h : (images.map Image.layers).Pairwise Disjoint) :
    diskBytes bytes images = imageBytes bytes images := by
  have hsum := sum_unionAll_of_disjoint h bytes
  rwa [List.map_map] at hsum

theorem not_overcounted_of_disjoint (h : (images.map Image.layers).Pairwise Disjoint) :
    ¬ Overcounted bytes budgetGb images := by
  rintro ⟨⟨hbudget, hover⟩, hdisk⟩
  obtain ⟨-, hfloor⟩ := budgetBytes_of_ne_zero hbudget
  rw [hfloor, ← diskBytes_of_disjoint h] at hover
  have hle : diskBytes bytes images ≤ ⌊budgetGb * gib⌋₊ := Nat.le_floor (not_lt.mp hdisk)
  omega

theorem harmless_of_disjoint (h : (images.map Image.layers).Pairwise Disjoint) :
    Harmless bytes budgetGb docker images where
  dangling := fun _ _ hover => absurd hover (not_overcounted_of_disjoint h)
  unused := by
    intro _ _ hover
    have hkept : ((pruneDangling images).map Image.layers).Pairwise Disjoint :=
      h.sublist ((pruneDangling_sublist images).map _)
    exact absurd hover (not_overcounted_of_disjoint hkept)

/-! ### What a run leaves -/

theorem nothing_of_harmless (h : Harmless bytes budgetGb docker images)
    (hdisk : ¬ Overrun bytes budgetGb images) :
    (maybeGc bytes budgetGb docker images).2 = images := by
  rcases maybeGc_cases bytes budgetGb docker images with
    ⟨heq, -⟩ | ⟨heq, hready, hover⟩ | ⟨heq, hagain, hmore⟩
  · rw [heq]
  · rw [heq]
    exact carry_induction (motive := (· = images)) rfl
      fun hrefused => h.dangling hready hrefused ⟨hover, hdisk⟩
  · obtain ⟨hready, hrefused⟩ := ready_of_readyAgain hagain
    have hkept := h.dangling hready hrefused ⟨over_of_pruneDangling hmore, hdisk⟩
    rw [heq, hkept]
    refine carry_induction (motive := (· = images)) rfl fun hcarried => ?_
    have hunused := h.unused hagain hcarried ⟨hmore, by rwa [hkept]⟩
    rwa [hkept] at hunused

theorem actsOnOverrun_of_harmless (h : Harmless bytes budgetGb docker images) :
    ActsOnOverrun bytes budgetGb docker images where
  nothing := nothing_of_harmless h
  tagged := by
    intro i hi htagged hlost
    obtain ⟨hagain, hrefused, hover, hused⟩ := unused_of_tagged_lost hi htagged hlost
    by_contra hdisk
    have hkept : i ∈ pruneUnused (pruneDangling images) := by
      rw [h.unused hagain hrefused ⟨hover, hdisk⟩]
      exact mem_pruneDangling_of_tagged hi htagged
    have : i.used = true := (List.mem_filter.mp hkept).2
    simp [hused] at this

theorem harmless_of_actsOnOverrun (h : ActsOnOverrun bytes budgetGb docker images) :
    Harmless bytes budgetGb docker images where
  dangling := by
    intro hready hrefused hover
    have hleft := h.nothing hover.2
    rcases maybeGc_cases bytes budgetGb docker images with
      ⟨-, hidle⟩ | ⟨heq, -⟩ | ⟨heq, -, -⟩
    · exact absurd ⟨hready, hover.1⟩ hidle
    · rw [heq] at hleft
      exact (carry_of_ne_refused hrefused).symm.trans hleft
    · rw [heq] at hleft
      have hsub : images.Sublist (pruneDangling images) := by
        nth_rewrite 1 [← hleft]
        exact carry_induction (motive := (List.Sublist · (pruneDangling images)))
          (List.Sublist.refl _) fun _ => pruneUnused_sublist _
      exact (pruneDangling_sublist images).antisymm hsub
  unused := by
    intro hagain hrefused hover
    refine List.filter_eq_self.mpr fun i hi => ?_
    by_contra hused
    -- what is unused after the dangling prune is tagged
    have htagged := tagged_of_mem_pruneDangling hi (Bool.eq_false_of_not_eq_true hused)
    refine hover.2 (h.tagged i ((pruneDangling_sublist images).subset hi) htagged ?_)
    rw [maybeGc_unused hagain hover.1, carry_of_ne_refused hrefused]
    exact fun hkept => hused (List.mem_filter.mp hkept).2

theorem actsOnOverrun_iff_harmless (bytes : layer → ℕ) (budgetGb : ℚ) (docker : Docker)
    (images : List (Image layer)) :
    ActsOnOverrun bytes budgetGb docker images ↔ Harmless bytes budgetGb docker images :=
  ⟨harmless_of_actsOnOverrun, actsOnOverrun_of_harmless⟩

/-- Two images of one layer of 2 GiB, and a budget of 3 GiB. -/
theorem not_actsOnOverrun_sharedLayer :
    ¬ ActsOnOverrun (fun _ : ℕ => 2 * 1024 ^ 3) 3
      ⟨true, true, ⟨true, true⟩, .done, ⟨true, true⟩, .done⟩
      [⟨{0}, true, true⟩, ⟨{0}, true, false⟩] := by
  intro h
  have hbudget : budgetBytes 3 = 3 * 1024 ^ 3 := by
    norm_num [budgetBytes, gib]
  have hover : Over (fun _ : ℕ => 2 * 1024 ^ 3) 3
      (pruneDangling [⟨{0}, true, true⟩, ⟨{0}, true, false⟩]) := by
    rw [Over, hbudget]
    decide
  have hdisk : ¬ Overrun (fun _ : ℕ => 2 * 1024 ^ 3) 3
      [⟨{0}, true, true⟩, ⟨{0}, true, false⟩] := by
    norm_num [Overrun, diskBytes, unionAll, gib]
  have hleft := h.nothing hdisk
  rw [maybeGc_unused rfl hover] at hleft
  exact absurd (congrArg List.length hleft) (by decide)

end

end HadcdAgent.ImageCache
