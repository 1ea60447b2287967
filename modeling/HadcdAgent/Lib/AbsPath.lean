import HadcdAgent.Lib.PyStr

/-!
# Normalised absolute paths

A normalised absolute POSIX path is the list of its segments. Tests on the text of
such paths, a prefix test with a separator at its end, say what they should about
the segments.
-/

namespace Lib

structure IsSegment (s : Str) : Prop where
  nonempty : s ≠ []
  noSlash : '/' ∉ s
  notDot : s ≠ ['.']
  notDotDot : s ≠ ['.', '.']

instance (s : Str) : Decidable (IsSegment s) :=
  decidable_of_iff (s ≠ [] ∧ '/' ∉ s ∧ s ≠ ['.'] ∧ s ≠ ['.', '.'])
    ⟨fun h => ⟨h.1, h.2.1, h.2.2.1, h.2.2.2⟩, fun h => ⟨h.1, h.2, h.3, h.4⟩⟩

structure AbsPath where
  parts : List Str
  segments : ∀ s ∈ parts, IsSegment s

namespace AbsPath

/-- The segments, each with the separator before it. -/
def slashed (parts : List Str) : Str := parts.flatMap fun s => '/' :: s

/-- The path as text; the root is a single separator. -/
def str (p : AbsPath) : Str := if p.parts = [] then ['/'] else slashed p.parts

/-- `path.rstrip("/") + "/"`. -/
def asParent (path : Str) : Str := path.rdropWhile (· = '/') ++ ['/']

@[simp] theorem slashed_nil : slashed [] = [] := rfl

@[simp] theorem slashed_cons (s : Str) (parts : List Str) :
    slashed (s :: parts) = '/' :: (s ++ slashed parts) := by
  simp [slashed]

theorem slashed_append (ps qs : List Str) : slashed (ps ++ qs) = slashed ps ++ slashed qs := by
  simp [slashed]

theorem rdropWhile_slashed {parts : List Str} (h : ∀ s ∈ parts, IsSegment s) :
    (slashed parts).rdropWhile (· = '/') = slashed parts := by
  induction parts using List.reverseRecOn with
  | nil => rfl
  | append_singleton ps s _ =>
    have hs := h s (by simp)
    rw [List.rdropWhile_eq_self_iff]
    intro hne
    have hlast : (slashed (ps ++ [s])).getLast hne = s.getLast hs.nonempty := by
      simp [slashed_append, hs.nonempty]
    rw [hlast]
    intro heq
    exact hs.noSlash (of_decide_eq_true heq ▸ List.getLast_mem hs.nonempty)

theorem asParent_str (p : AbsPath) : asParent p.str = slashed p.parts ++ ['/'] := by
  unfold asParent str
  split
  case isTrue h => simp [h, List.rdropWhile]
  case isFalse h => rw [rdropWhile_slashed p.segments]

theorem append_slash_prefix_iff {s t u v : Str} (hs : '/' ∉ s) (ht : '/' ∉ t)
    (hv : v = [] ∨ ∃ w, v = '/' :: w) :
    s ++ '/' :: u <+: t ++ v ↔ s = t ∧ '/' :: u <+: v := by
  induction s generalizing t with
  | nil =>
    cases t with
    | nil => simp
    | cons c t =>
      have hc : '/' ≠ c := fun h => ht (h ▸ List.mem_cons_self ..)
      simp [List.cons_prefix_cons, hc]
  | cons a s ih =>
    have hs' : '/' ∉ s := fun h => hs (List.mem_cons_of_mem _ h)
    cases t with
    | nil =>
      have ha : '/' ≠ a := fun h => hs (h ▸ List.mem_cons_self ..)
      rcases hv with rfl | ⟨w, rfl⟩
      · simp
      · simp [List.cons_prefix_cons, Ne.symm ha]
    | cons c t =>
      have ht' : '/' ∉ t := fun h => ht (List.mem_cons_of_mem _ h)
      simp only [List.cons_append, List.cons_prefix_cons, ih hs' ht', List.cons.injEq]
      tauto

theorem prefix_append_slash_iff {start t v : Str} (hs : '/' ∉ start)
    (hv : v = [] ∨ ∃ w, v = '/' :: w) : start <+: t ++ v ↔ start <+: t := by
  induction start generalizing t with
  | nil => simp
  | cons a start ih =>
    have hs' : '/' ∉ start := fun h => hs (List.mem_cons_of_mem _ h)
    have ha : a ≠ '/' := fun h => hs (h ▸ List.mem_cons_self ..)
    cases t with
    | nil =>
      rcases hv with rfl | ⟨w, rfl⟩
      · rfl
      · simp [List.cons_prefix_cons, ha]
    | cons c t => simp only [List.cons_append, List.cons_prefix_cons, ih hs']

theorem slashed_eq_nil_or (parts : List Str) :
    slashed parts = [] ∨ ∃ w, slashed parts = '/' :: w := by
  cases parts with
  | nil => exact Or.inl rfl
  | cons s parts => exact Or.inr ⟨_, slashed_cons s parts⟩

theorem slashed_append_slash (parts : List Str) (start : Str) :
    ∃ w, slashed parts ++ '/' :: start = '/' :: w := by
  cases parts with
  | nil => exact ⟨start, rfl⟩
  | cons s parts => exact ⟨_, by rw [slashed_cons]; rfl⟩

theorem slashed_prefix_iff {ps qs : List Str} (hp : ∀ s ∈ ps, IsSegment s)
    (hq : ∀ s ∈ qs, IsSegment s) {start : Str} (hstart : '/' ∉ start) :
    slashed ps ++ '/' :: start <+: slashed qs ↔
      ∃ name rest, qs = ps ++ name :: rest ∧ start <+: name := by
  induction ps generalizing qs with
  | nil =>
    cases qs with
    | nil => simp
    | cons q qs =>
      simp only [slashed_nil, List.nil_append, slashed_cons, List.cons_prefix_cons, true_and,
        prefix_append_slash_iff hstart (slashed_eq_nil_or qs), List.cons.injEq]
      constructor
      · intro h
        exact ⟨q, qs, ⟨rfl, rfl⟩, h⟩
      · rintro ⟨name, rest, ⟨rfl, rfl⟩, h⟩
        exact h
  | cons p ps ih =>
    have hps : ∀ s ∈ ps, IsSegment s := fun s hs => hp s (List.mem_cons_of_mem p hs)
    cases qs with
    | nil => simp
    | cons q qs =>
      have hqs : ∀ s ∈ qs, IsSegment s := fun s hs => hq s (List.mem_cons_of_mem q hs)
      have hsplit : slashed (p :: ps) ++ '/' :: start <+: slashed (q :: qs) ↔
          p = q ∧ slashed ps ++ '/' :: start <+: slashed qs := by
        obtain ⟨w, hw⟩ := slashed_append_slash ps start
        simp only [slashed_cons, List.cons_append, List.append_assoc, List.cons_prefix_cons,
          true_and, hw]
        exact append_slash_prefix_iff (hp p (List.mem_cons_self ..)).noSlash
          (hq q (List.mem_cons_self ..)).noSlash (slashed_eq_nil_or qs)
      rw [hsplit, ih hps hqs]
      constructor
      · rintro ⟨rfl, name, rest, rfl, h⟩
        exact ⟨name, rest, rfl, h⟩
      · rintro ⟨name, rest, heq, h⟩
        obtain ⟨rfl, rfl⟩ := List.cons.inj heq
        exact ⟨rfl, name, rest, rfl, h⟩

/-! ### Containment -/

/-- The text of `q` goes on from `p` with a separator and `start` exactly when the
segment of `q` after those of `p` begins with `start`. -/
theorem asParent_append_prefix_iff (p q : AbsPath) {start : Str} (hne : start ≠ [])
    (hstart : '/' ∉ start) :
    asParent p.str ++ start <+: q.str ↔
      ∃ name rest, q.parts = p.parts ++ name :: rest ∧ start <+: name := by
  rw [asParent_str, List.append_assoc]
  unfold str
  split
  case isTrue hq =>
    have hlen : ¬ slashed p.parts ++ (['/'] ++ start) <+: ['/'] := by
      intro h
      have hle := h.length_le
      have hpos : 0 < start.length := List.length_pos_iff.mpr hne
      simp only [List.length_append, List.length_singleton] at hle
      omega
    refine iff_of_false hlen ?_
    rintro ⟨name, rest, h, -⟩
    rw [hq] at h
    simp at h
  case isFalse => exact slashed_prefix_iff p.segments q.segments hstart

theorem slashed_slash_prefix_iff {ps qs : List Str} (hp : ∀ s ∈ ps, IsSegment s)
    (hq : ∀ s ∈ qs, IsSegment s) :
    slashed ps ++ ['/'] <+: slashed qs ++ ['/'] ↔ ps <+: qs := by
  induction ps generalizing qs with
  | nil =>
    obtain ⟨w, hw⟩ := slashed_append_slash qs []
    simp [hw, List.cons_prefix_cons]
  | cons p ps ih =>
    have hps : ∀ s ∈ ps, IsSegment s := fun s hs => hp s (List.mem_cons_of_mem p hs)
    have hpseg := hp p (List.mem_cons_self ..)
    cases qs with
    | nil => simp [List.cons_prefix_cons, hpseg.nonempty]
    | cons q qs =>
      have hqs : ∀ s ∈ qs, IsSegment s := fun s hs => hq s (List.mem_cons_of_mem q hs)
      obtain ⟨u, hu⟩ := slashed_append_slash ps []
      obtain ⟨v, hv⟩ := slashed_append_slash qs []
      rw [List.cons_prefix_cons, ← ih hps hqs]
      simp only [slashed_cons, List.cons_append, List.append_assoc, List.cons_prefix_cons, true_and,
        hu, hv]
      rw [append_slash_prefix_iff hpseg.noSlash (hq q (List.mem_cons_self ..)).noSlash
        (Or.inr ⟨v, rfl⟩), List.cons_prefix_cons]
      simp

theorem str_eq_of_slashed_eq {p q : AbsPath} (h : slashed p.parts = slashed q.parts) :
    p.str = q.str := by
  have hnil : ∀ ps : List Str, slashed ps = [] ↔ ps = [] := by
    intro ps
    cases ps <;> simp
  have hiff : p.parts = [] ↔ q.parts = [] := by rw [← hnil, ← hnil, h]
  simp only [str, h, hiff]

/-- Equality or a prefix with a separator at its end: containment by segments. -/
theorem within_iff (p q : AbsPath) :
    (q.str = p.str ∨ asParent p.str <+: q.str) ↔ p.parts <+: q.parts := by
  rw [← slashed_slash_prefix_iff p.segments q.segments, ← asParent_str, ← asParent_str]
  constructor
  · rintro (h | h)
    · rw [h]
    · refine h.trans ?_
      rw [asParent_str]
      unfold str
      split
      case isTrue hq => simp [hq]
      case isFalse => exact List.prefix_append _ _
  · intro h
    rw [asParent_str, asParent_str, List.prefix_concat_iff] at h
    rcases h with h | h
    · exact Or.inl (str_eq_of_slashed_eq (List.append_cancel_right h)).symm
    · have hq : q.parts ≠ [] := by
        intro hq
        rw [hq] at h
        simp at h
      rw [asParent_str]
      simp only [str, if_neg hq]
      exact Or.inr h

end AbsPath
end Lib
