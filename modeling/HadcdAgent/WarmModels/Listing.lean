import HadcdAgent.Lib.Resolve
import Mathlib.Data.Char
import Mathlib.Data.List.Lex
import Mathlib.Data.List.Sort

/-!
# The models in the Ollama volume

`list_cached_models` (`agent/rental_session_handler.py`): the manifest tree of the shared
volume as a container lists it, and the models that the listing is read as.
-/

namespace HadcdAgent.WarmModels

open Lib Lib.PyStr

/-! ### The volume -/

/-- A file of the manifest tree, by its path there. -/
structure ModelFile where
  path : List Str
  named : ∀ p ∈ path, p ≠ [] ∧ '/' ∉ p ∧ SpaceFree p

def ModelFile.line (f : ModelFile) : Str := List.intercalate ['/'] f.path

/-- `find -type f`, each path without that of the tree; a tree that is not there is empty. -/
def findManifests (volume : List ModelFile) : Str := volume.flatMap fun f => f.line ++ ['\n']

/-! ### The source -/

/-- Whether the SDK and its daemon, `volumes.get` and `containers.run` answer. -/
structure ScanIo where
  connects : Bool
  getsVolume : Bool
  runs : Bool

def ScanIo.lists (io : ScanIo) : Bool := io.connects && io.getsVolume && io.runs

/-- `name:tag`, the name without the namespace `library`. -/
def displayed (ns name tag : Str) : Str :=
  (if ns ≠ "library" then ns ++ '/' :: name else name) ++ ':' :: tag

/-- The body of the loop over the lines. -/
def modelOfLine (line : Str) : Option Str :=
  let parts := ((strip line).splitOn '/').filter fun p => p ≠ []
  if parts.length < 3 then none
  else
    match parts with
    | _registry :: ns :: rest =>
      let tag := rest.getLastD []
      let name := List.intercalate ['/'] rest.dropLast
      if name = [] then none else some (displayed ns name tag)
    | _ => none

/-- `sorted(set(models))` -/
def sortedSet (models : List Str) : List Str := models.dedup.insertionSort fun m n => m ≤ n

def listCachedModels (io : ScanIo) (volume : List ModelFile) : List Str :=
  if !io.connects then []
  else if !io.getsVolume then []
  else if !io.runs then []
  else sortedSet ((splitlines (findManifests volume)).filterMap modelOfLine)

/-! ### The models of the volume -/

/-- The file is the manifest of the model. -/
def ModelFile.IsManifest (f : ModelFile) (model : Str) : Prop :=
  ∃ registry ns names tag, f.path = registry :: ns :: names ++ [tag] ∧ names ≠ [] ∧
    model = displayed ns (List.intercalate ['/'] names) tag

def Holds (volume : List ModelFile) (model : Str) : Prop := ∃ f ∈ volume, f.IsManifest model

section

variable {io : ScanIo} {volume : List ModelFile} {f : ModelFile} {model : Str}

theorem spaceFree_line (f : ModelFile) : SpaceFree f.line := by
  intro c hc
  by_cases hslash : c = '/'
  · rw [hslash]
    decide
  · obtain ⟨p, hp, hcp⟩ := (PurePath.mem_intercalate_iff hslash).mp hc
    exact (f.named p hp).2.2 c hcp

theorem parts_line (f : ModelFile) :
    ((strip f.line).splitOn '/').filter (fun p => p ≠ []) = f.path := by
  rw [show strip f.line = f.line from (spaceFree_line f).stripped, ModelFile.line]
  by_cases hnil : f.path = []
  · rw [hnil]
    rfl
  · rw [List.splitOn_intercalate '/' (fun p hp => (f.named p hp).2.1) hnil, List.filter_eq_self]
    intro p hp
    exact decide_eq_true (f.named p hp).1

theorem intercalate_eq_nil {names : List Str} (h : ∀ p ∈ names, p ≠ []) :
    List.intercalate ['/'] names = [] ↔ names = [] := by
  constructor
  · intro hjoined
    cases names with
    | nil => rfl
    | cons p names =>
      exfalso
      cases names with
      | nil => exact h p (List.mem_cons_self ..) (by simpa using hjoined)
      | cons q names =>
        rw [List.intercalate_cons_of_ne_nil (List.cons_ne_nil q names)] at hjoined
        simp at hjoined
  · intro hnil
    rw [hnil]
    rfl

theorem modelOfLine_short (h : f.path.length < 3) : modelOfLine f.line = none := by
  unfold modelOfLine
  rw [parts_line]
  exact if_pos h

theorem modelOfLine_line {registry ns tag : Str} {names : List Str}
    (h : f.path = registry :: ns :: (names ++ [tag])) : modelOfLine f.line =
      if names = [] then none else some (displayed ns (List.intercalate ['/'] names) tag) := by
  have hnamed : ∀ p ∈ names, p ≠ [] := by
    intro p hp
    refine (f.named p ?_).1
    rw [h]
    simp [hp]
  unfold modelOfLine
  rw [parts_line, h, if_neg (by simp)]
  dsimp only
  rw [List.dropLast_concat, List.getLastD_concat]
  simp only [intercalate_eq_nil hnamed]

theorem modelOfLine_eq_some : modelOfLine f.line = some model ↔ f.IsManifest model := by
  constructor
  · intro h
    by_cases hshort : f.path.length < 3
    · rw [modelOfLine_short hshort] at h
      cases h
    · obtain ⟨registry, ns, names, tag, hpath⟩ :
          ∃ registry ns names tag, f.path = registry :: ns :: (names ++ [tag]) := by
        match hpath : f.path with
        | [] | [_] | [_, _] => simp [hpath] at hshort
        | registry :: ns :: r :: rest =>
          refine ⟨registry, ns, (r :: rest).dropLast,
            (r :: rest).getLast (List.cons_ne_nil r rest), ?_⟩
          rw [List.dropLast_append_getLast]
      rw [modelOfLine_line hpath] at h
      split_ifs at h with hnames
      exact ⟨registry, ns, names, tag, hpath, hnames, (Option.some.inj h).symm⟩
  · rintro ⟨registry, ns, names, tag, hpath, hnames, rfl⟩
    rw [modelOfLine_line hpath, if_neg hnames]

theorem lines_findManifests (volume : List ModelFile) :
    splitlines (findManifests volume) = volume.map ModelFile.line := by
  rw [findManifests, splitlines_flatMap_nl]
  simp only [physicalLines_of_breakFree (spaceFree_line _).breakFree]
  exact List.map_eq_flatMap.symm

theorem listCachedModels_of_lists (h : io.lists = true) : listCachedModels io volume =
    sortedSet ((volume.map ModelFile.line).filterMap modelOfLine) := by
  simp only [ScanIo.lists, Bool.and_eq_true] at h
  unfold listCachedModels
  rw [h.1.1, h.1.2, h.2, lines_findManifests]
  rfl

theorem listCachedModels_of_not_lists (h : io.lists = false) : listCachedModels io volume = [] := by
  obtain ⟨connects, getsVolume, runs⟩ := io
  cases connects <;> cases getsVolume <;> cases runs <;> first | rfl | cases h

theorem mem_listCachedModels (h : io.lists = true) :
    model ∈ listCachedModels io volume ↔ Holds volume model := by
  rw [listCachedModels_of_lists h, sortedSet, List.mem_insertionSort, List.mem_dedup,
    List.filterMap_map, List.mem_filterMap]
  exact exists_congr fun f => and_congr_right fun _ => modelOfLine_eq_some

theorem nodup_listCachedModels (io : ScanIo) (volume : List ModelFile) :
    (listCachedModels io volume).Nodup := by
  cases h : io.lists with
  | false =>
    rw [listCachedModels_of_not_lists h]
    exact List.nodup_nil
  | true =>
    rw [listCachedModels_of_lists h, sortedSet]
    exact (List.perm_insertionSort _ _).nodup_iff.mpr (List.nodup_dedup _)

/-- A listing without models reads like a scan that could not look. -/
theorem listCachedModels_eq_nil :
    listCachedModels io volume = [] ↔ io.lists = false ∨ ∀ model, ¬ Holds volume model := by
  cases h : io.lists with
  | false => exact iff_of_true (listCachedModels_of_not_lists h) (Or.inl rfl)
  | true =>
    simp only [List.eq_nil_iff_forall_not_mem, mem_listCachedModels h, Bool.true_eq_false, false_or]

end

end HadcdAgent.WarmModels
