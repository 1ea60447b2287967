import HadcdAgent.Lib.AbsPath
import HadcdAgent.Lib.PyPath

/-!
# Resolving paths where there are no symbolic links

The text of a path leads to its segments from the root, and what lies beneath a
directory is told by the segments alone.
-/

namespace Lib

theorem not_mem_of_mem_splitOn {c : Char} {t s : Str} (h : s ∈ t.splitOn c) : c ∉ s := by
  induction t generalizing s with
  | nil =>
    rw [List.splitOn_nil] at h
    rw [List.mem_singleton.mp h]
    exact List.not_mem_nil
  | cons a t ih =>
    rw [List.splitOn_cons_eq_if_modifyHead] at h
    split at h
    · rcases List.mem_cons.mp h with rfl | h
      · exact List.not_mem_nil
      · exact ih h
    next hac =>
      cases hsplit : t.splitOn c with
      | nil => exact absurd hsplit (List.splitOn_ne_nil c t)
      | cons u us =>
        rw [hsplit, List.modifyHead_cons] at h
        rcases List.mem_cons.mp h with rfl | h
        · rw [List.mem_cons, not_or]
          exact ⟨fun heq => hac (by simp [heq]), ih (hsplit ▸ List.mem_cons_self ..)⟩
        · exact ih (hsplit ▸ List.mem_cons_of_mem u h)

theorem splitOn_slash (t : Str) : ('/' :: t).splitOn '/' = [] :: t.splitOn '/' :=
  List.splitOn_append_cons_self (a := '/') [] t

namespace PurePath

/-! ### The parts of a path -/

/-- What `pathlib` keeps of a text. -/
structure IsPart (s : Str) : Prop where
  nonempty : s ≠ []
  notDot : s ≠ ['.']
  noSlash : '/' ∉ s

structure Proper (p : PurePath) : Prop where
  root : p.root = [] ∨ p.root = ['/'] ∨ p.root = ['/', '/']
  parts : ∀ s ∈ p.parts, IsPart s

theorem isPart_of_mem {t s : Str} (h : s ∈ (ofStr t).parts) : IsPart s := by
  obtain ⟨hmem, hkept⟩ := List.mem_filter.mp h
  rw [Bool.and_eq_true, decide_eq_true_iff, decide_eq_true_iff] at hkept
  exact ⟨hkept.1, hkept.2, not_mem_of_mem_splitOn hmem⟩

theorem rootOf_cases (t : Str) : rootOf t = [] ∨ rootOf t = ['/'] ∨ rootOf t = ['/', '/'] := by
  unfold rootOf
  split
  · exact Or.inr (Or.inl rfl)
  · exact Or.inr (Or.inr rfl)
  · exact Or.inr (Or.inl rfl)
  · exact Or.inl rfl

theorem proper_ofStr (t : Str) : (ofStr t).Proper := ⟨rootOf_cases t, fun _ hs => isPart_of_mem hs⟩

theorem rootOf_append {root u : Str} (hroot : root = [] ∨ root = ['/'] ∨ root = ['/', '/'])
    (hu : u.head? ≠ some '/') : rootOf (root ++ u) = root := by
  cases u with
  | nil => rcases hroot with rfl | rfl | rfl <;> rfl
  | cons c u =>
    have hc : c ≠ '/' := fun heq => hu (congrArg some heq)
    unfold rootOf
    rcases hroot with rfl | rfl | rfl <;> simp [hc]

theorem head?_intercalate {parts : List Str} (h : ∀ s ∈ parts, IsPart s) :
    (List.intercalate ['/'] parts).head? ≠ some '/' := by
  cases parts with
  | nil => simp
  | cons s parts =>
    have hs := h s (List.mem_cons_self ..)
    obtain ⟨c, u, rfl⟩ := List.exists_cons_of_ne_nil hs.nonempty
    have hc : c ≠ '/' := fun heq => hs.noSlash (heq ▸ List.mem_cons_self ..)
    cases parts with
    | nil => simpa using hc
    | cons t parts =>
      rw [List.intercalate_cons_of_ne_nil (List.cons_ne_nil _ _)]
      simpa using hc

def kept (segments : List Str) : List Str := segments.filter fun s => s ≠ [] && s ≠ ['.']

theorem kept_intercalate {parts : List Str} (h : ∀ s ∈ parts, IsPart s) :
    kept ((List.intercalate ['/'] parts).splitOn '/') = parts := by
  by_cases hnil : parts = []
  · subst hnil
    rfl
  · rw [List.splitOn_intercalate '/' (fun s hs => (h s hs).noSlash) hnil, kept,
      List.filter_eq_self]
    intro s hs
    simp [(h s hs).nonempty, (h s hs).notDot]

theorem ofStr_str {p : PurePath} (h : p.Proper) : ofStr p.str = p := by
  obtain ⟨root, parts⟩ := p
  rw [str]
  split_ifs with hempty
  · obtain ⟨hroot, hparts⟩ := hempty
    dsimp only at hroot hparts
    subst hroot hparts
    rfl
  · have hroot := rootOf_append h.root (head?_intercalate h.parts)
    have hkept : kept ((root ++ List.intercalate ['/'] parts).splitOn '/') = parts := by
      rcases h.root with hr | hr | hr <;> dsimp only at hr <;> subst hr
      · exact kept_intercalate h.parts
      · rw [List.singleton_append, splitOn_slash]
        exact kept_intercalate h.parts
      · rw [List.cons_append, splitOn_slash, List.singleton_append, splitOn_slash]
        exact kept_intercalate h.parts
    dsimp only at hroot ⊢
    rw [ofStr, hroot]
    exact congrArg _ hkept

theorem isSegment_of_walk {dirs parts : List Str} (hdirs : ∀ s ∈ dirs, IsSegment s)
    (hparts : ∀ s ∈ parts, IsPart s) : ∀ s ∈ parts.foldl walk dirs, IsSegment s := by
  induction parts generalizing dirs with
  | nil => exact hdirs
  | cons p parts ih =>
    refine ih ?_ fun s hs => hparts s (List.mem_cons_of_mem p hs)
    intro s hs
    rw [walk] at hs
    split_ifs at hs with hup
    · exact hdirs s (List.mem_of_mem_dropLast hs)
    · rcases List.mem_append.mp hs with hs | hs
      · exact hdirs s hs
      · have hp := hparts p (List.mem_cons_self ..)
        rw [List.mem_singleton.mp hs]
        exact ⟨hp.nonempty, hp.noSlash, hp.notDot, hup⟩

theorem isPart_of_isSegment {s : Str} (h : IsSegment s) : IsPart s :=
  ⟨h.nonempty, h.notDot, h.noSlash⟩

theorem ofStr_segment {s : Str} (h : IsSegment s) : ofStr s = ⟨[], [s]⟩ := by
  have hproper : Proper ⟨[], [s]⟩ := by
    refine ⟨Or.inl rfl, fun t ht => ?_⟩
    rw [List.mem_singleton.mp ht]
    exact isPart_of_isSegment h
  have hstr : str ⟨[], [s]⟩ = s := by simp [str]
  have hofStr := ofStr_str hproper
  rw [hstr] at hofStr
  exact hofStr

theorem join_segment (p : PurePath) {s : Str} (h : IsSegment s) :
    p.join s = ⟨p.root, p.parts ++ [s]⟩ := by
  rw [join, ofStr_segment h]
  rfl

theorem Proper.join_segment {p : PurePath} (hp : p.Proper) {s : Str} (h : IsSegment s) :
    (p.join s).Proper := by
  rw [PurePath.join_segment p h]
  refine ⟨hp.root, fun t ht => ?_⟩
  rcases List.mem_append.mp ht with ht | ht
  · exact hp.parts t ht
  · rw [List.mem_singleton.mp ht]
    exact isPart_of_isSegment h

/-! ### The characters of a path -/

section Characters

variable {c : Char} (hslash : c ≠ '/')

include hslash

theorem mem_intercalate_iff {parts : List Str} :
    c ∈ List.intercalate ['/'] parts ↔ ∃ s ∈ parts, c ∈ s := by
  induction parts with
  | nil => simp
  | cons s parts ih =>
    cases parts with
    | nil => simp
    | cons t parts =>
      rw [List.intercalate_cons_of_ne_nil (List.cons_ne_nil _ _), List.mem_append,
        List.mem_append, List.mem_singleton, ih]
      simp only [hslash, or_false, List.exists_mem_cons_iff]

theorem mem_of_mem_part {t s : Str} (hs : s ∈ (ofStr t).parts) (h : c ∈ s) : c ∈ t := by
  have hjoined := (mem_intercalate_iff hslash).mpr ⟨s, List.mem_of_mem_filter hs, h⟩
  rw [List.intercalate_splitOn] at hjoined
  exact hjoined

theorem exists_part_of_mem (p : PurePath)
    (hroot : p.root = [] ∨ p.root = ['/'] ∨ p.root = ['/', '/']) (hdot : c ≠ '.')
    (h : c ∈ p.str) : ∃ s ∈ p.parts, c ∈ s := by
  rw [str] at h
  split_ifs at h
  · exact absurd (List.mem_singleton.mp h) hdot
  · rcases List.mem_append.mp h with h | h
    · rcases hroot with hr | hr | hr <;> rw [hr] at h <;> simp [hslash] at h
    · exact (mem_intercalate_iff hslash).mp h

/-- `p / t` has no characters of its own but separators and dots. -/
theorem mem_of_mem_join {p : PurePath} (hp : p.Proper) {t : Str} (hdot : c ≠ '.')
    (h : c ∈ (p.join t).str) : c ∈ p.str ∨ c ∈ t := by
  have hself : ∀ s ∈ p.parts, c ∈ s → c ∈ p.str := by
    intro s hs hc
    rw [← ofStr_str hp] at hs
    exact mem_of_mem_part hslash hs hc
  rw [join] at h
  split_ifs at h
  · obtain ⟨s, hs, hc⟩ := exists_part_of_mem hslash ⟨p.root, p.parts ++ _⟩ hp.root hdot h
    rcases List.mem_append.mp hs with hs | hs
    · exact Or.inl (hself s hs hc)
    · exact Or.inr (mem_of_mem_part hslash hs hc)
  · obtain ⟨s, hs, hc⟩ := exists_part_of_mem hslash _ (rootOf_cases t) hdot h
    exact Or.inr (mem_of_mem_part hslash hs hc)

end Characters

end PurePath

namespace AbsPath

def fsRoot : AbsPath := ⟨[], fun _ h => by cases h⟩

/-- `os.path.realpath(t)` in the working directory `cwd`. -/
def resolve (cwd : AbsPath) (t : Str) : AbsPath where
  parts :=
    (PurePath.ofStr t).parts.foldl PurePath.walk
      (if (PurePath.ofStr t).root = [] then cwd.parts else [])
  segments := by
    refine PurePath.isSegment_of_walk ?_ fun s hs => PurePath.isPart_of_mem hs
    split_ifs
    · exact cwd.segments
    · intro s hs
      cases hs

theorem slashed_eq_intercalate (parts : List Str) (h : parts ≠ []) :
    slashed parts = '/' :: List.intercalate ['/'] parts := by
  induction parts with
  | nil => exact absurd rfl h
  | cons s parts ih =>
    cases parts with
    | nil => simp
    | cons t parts =>
      rw [slashed_cons, ih (List.cons_ne_nil _ _),
        List.intercalate_cons_of_ne_nil (List.cons_ne_nil _ _)]
      simp

theorem str_eq (p : AbsPath) : p.str = PurePath.str ⟨['/'], p.parts⟩ := by
  have hrooted : PurePath.str ⟨['/'], p.parts⟩ = '/' :: List.intercalate ['/'] p.parts :=
    if_neg fun h => List.cons_ne_nil _ _ h.1
  rw [hrooted, str]
  split_ifs with hnil
  · rw [hnil]
    rfl
  · exact slashed_eq_intercalate p.parts hnil

theorem ofStr_str (p : AbsPath) : PurePath.ofStr p.str = ⟨['/'], p.parts⟩ := by
  rw [str_eq]
  refine PurePath.ofStr_str ⟨Or.inr (Or.inl rfl), ?_⟩
  intro s hs
  exact PurePath.isPart_of_isSegment (p.segments s hs)

theorem parts_eq_of_str_eq {p q : AbsPath} (h : p.str = q.str) : p.parts = q.parts := by
  have hparts := congrArg PurePath.parts (congrArg PurePath.ofStr h)
  rw [ofStr_str, ofStr_str] at hparts
  exact hparts

theorem isRelativeTo_iff (p q : AbsPath) :
    (PurePath.ofStr q.str).isRelativeTo (.ofStr p.str) = true ↔ p.parts <+: q.parts := by
  rw [ofStr_str, ofStr_str, PurePath.isRelativeTo]
  simp

theorem resolve_ofStr (cwd : AbsPath) (t : Str) :
    cwd.resolve (PurePath.ofStr t).str = cwd.resolve t := by
  simp only [resolve, PurePath.ofStr_str (PurePath.proper_ofStr t)]

theorem resolve_join_segment (cwd : AbsPath) {p : PurePath} (hp : p.Proper) {s : Str}
    (hs : IsSegment s) :
    (cwd.resolve (p.join s).str).parts = (cwd.resolve p.str).parts ++ [s] := by
  simp only [resolve, PurePath.ofStr_str hp, PurePath.ofStr_str (hp.join_segment hs)]
  rw [PurePath.join_segment p hs, List.foldl_append, List.foldl_cons, List.foldl_nil, PurePath.walk,
    if_neg hs.notDotDot]

/-! ### Strictly beneath -/

def Beneath (p q : AbsPath) : Prop := p.parts <+: q.parts ∧ p.parts ≠ q.parts

/-- The text is the path of `p`, or of something beneath it. -/
def WithinStr (p : AbsPath) (t : Str) : Prop := ∃ q : AbsPath, t = q.str ∧ p.parts <+: q.parts

/-- The text is the path of something strictly beneath `p`. -/
def BeneathStr (p : AbsPath) (t : Str) : Prop := ∃ q : AbsPath, t = q.str ∧ p.Beneath q

theorem withinStr_str_iff {p q : AbsPath} : p.WithinStr q.str ↔ p.parts <+: q.parts := by
  constructor
  · rintro ⟨r, hr, hprefix⟩
    rw [parts_eq_of_str_eq hr]
    exact hprefix
  · intro h
    exact ⟨q, rfl, h⟩

theorem WithinStr.beneath {p : AbsPath} {t : Str} (h : p.WithinStr t) (hne : t ≠ p.str) :
    p.BeneathStr t := by
  obtain ⟨q, rfl, hprefix⟩ := h
  refine ⟨q, rfl, hprefix, ?_⟩
  intro heq
  exact hne (by rw [str_eq, str_eq, heq])

theorem beneathStr_str_iff {p q : AbsPath} : p.BeneathStr q.str ↔ p.Beneath q := by
  constructor
  · rintro ⟨r, hr, hbeneath⟩
    rw [Beneath, parts_eq_of_str_eq hr]
    exact hbeneath
  · intro h
    exact ⟨q, rfl, h⟩

theorem isSegment_append {s ext : Str} (h : IsSegment s) (hslash : '/' ∉ ext)
    (hdots : ∃ c ∈ ext, c ≠ '.') : IsSegment (s ++ ext) := by
  obtain ⟨c, hc, hdot⟩ := hdots
  have hmem : c ∈ s ++ ext := List.mem_append_right s hc
  exact {
    nonempty := by simp [h.nonempty]
    noSlash := by
      rw [List.mem_append, not_or]
      exact ⟨h.noSlash, hslash⟩
    notDot := by
      intro heq
      rw [heq, List.mem_singleton] at hmem
      exact hdot hmem
    notDotDot := by
      intro heq
      rw [heq, List.mem_pair, or_self] at hmem
      exact hdot hmem }

section Extension

variable {init : List Str} {last ext : Str}

def extended (ext : Str) (q : AbsPath) (h : q.parts = init ++ [last]) (hslash : '/' ∉ ext)
    (hdots : ∃ c ∈ ext, c ≠ '.') : AbsPath where
  parts := init ++ [last ++ ext]
  segments := by
    intro s hs
    rcases List.mem_append.mp hs with hs | hs
    · exact q.segments s (h ▸ List.mem_append_left _ hs)
    · rw [List.mem_singleton.mp hs]
      exact isSegment_append (q.segments last (by rw [h]; simp)) hslash hdots

theorem str_append {q : AbsPath} (h : q.parts = init ++ [last]) (hslash : '/' ∉ ext)
    (hdots : ∃ c ∈ ext, c ≠ '.') : q.str ++ ext = (extended ext q h hslash hdots).str := by
  have hne : ∀ s : Str, init ++ [s] ≠ [] := fun s => by simp
  rw [str, str, h, if_neg (hne _), extended, if_neg (hne _)]
  simp [slashed_append]

end Extension

/-- The extension takes nothing strictly beneath a directory out of it. -/
theorem BeneathStr.append {p : AbsPath} {t ext : Str} (h : p.BeneathStr t) (hslash : '/' ∉ ext)
    (hdots : ∃ c ∈ ext, c ≠ '.') : p.BeneathStr (t ++ ext) := by
  obtain ⟨q, rfl, ⟨rest, hrest⟩, hne⟩ := h
  have hmore : rest ≠ [] := by
    rintro rfl
    rw [List.append_nil] at hrest
    exact hne hrest
  obtain ⟨init, last, rfl⟩ := List.eq_nil_or_concat rest |>.resolve_left hmore
  have hparts : q.parts = (p.parts ++ init) ++ [last] := by rw [← hrest]; simp
  refine ⟨extended ext q hparts hslash hdots, str_append hparts hslash hdots, ?_, ?_⟩
  · exact ⟨init ++ [last ++ ext], by simp [extended]⟩
  · intro heq
    have hlen := congrArg List.length heq
    simp [extended] at hlen

/-- But it takes the directory's own path out of it. -/
theorem not_beneathStr_append {p : AbsPath} (hp : p.parts ≠ []) {ext : Str} (hslash : '/' ∉ ext)
    (hdots : ∃ c ∈ ext, c ≠ '.') : ¬ p.BeneathStr (p.str ++ ext) := by
  obtain ⟨init, last, hparts⟩ := (List.eq_nil_or_concat p.parts).resolve_left hp
  rw [List.concat_eq_append] at hparts
  rw [str_append hparts hslash hdots, beneathStr_str_iff]
  rintro ⟨hrel, hne⟩
  refine hne (hrel.eq_of_length ?_)
  rw [hparts, extended]
  simp

end AbsPath
end Lib
