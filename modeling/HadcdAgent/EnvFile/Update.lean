import HadcdAgent.EnvFile

/-!
# A rewrite of agent.env as an update

`_write_env` (`agent/provisioner.py`) and `_apply_pending_config` (`agent/agent.py`):
what is put is read back, the other keys and lines stay, and a second rewrite with the
same updates changes nothing.
-/

namespace HadcdAgent.EnvFile

open Lib Lib.PyStr

/-! ### What an update should be -/

/-- Keys that a line can hold, and values that fit on it and come back from it. -/
def WellFormed (updates : Dict Str Str) : Prop :=
  ∀ kv ∈ updates.items, IsKey kv.1 ∧ BreakFree kv.2 ∧ Stripped kv.2

instance (updates : Dict Str Str) : Decidable (WellFormed updates) :=
  inferInstanceAs (Decidable (∀ kv ∈ updates.items, IsKey kv.1 ∧ BreakFree kv.2 ∧ Stripped kv.2))

/-- A line that assigns to no updated key: blank, a comment or of another key. -/
def Unrelated (updates : Dict Str Str) (line : Str) : Prop :=
  ∀ key, lineKey line = some key → updates.get key = none

def IsUpdatedLine (updates : Dict Str Str) (old new : Str) : Prop :=
  (Unrelated updates old → new = old) ∧
    ∀ key value, lineKey old = some key → updates.get key = some value →
      new = renderLine (key, value)

structure IsUpdate (updates : Dict Str Str) (old new : Str) : Prop where
  put : ∀ key value, updates.get key = some value → (readEnv new).get key = some value
  frame : ∀ key, updates.get key = none → (readEnv new).get key = (readEnv old).get key
  /-- Every line stays where it was; those added assign to updated keys only. -/
  lines : ∃ kept added, readLines new = kept ++ added ∧
    List.Forall₂ (IsUpdatedLine updates) (readLines old) kept ∧
    ∀ line ∈ added, ∀ key, lineKey line = some key → updates.get key ≠ none

/-! ### The lines of the merge -/

/-- What a rewriter writes is read back line by line, but for the one line of the
empty file. -/
theorem readLines_unlines {ls : List Str} (h : ∀ l ∈ ls, BreakFree l) :
    readLines (unlines ls) = if ls = [] then [[]] else ls := by
  rw [readLines, splitlines_universalNewlines]
  split_ifs with hnil
  · rw [hnil, splitlines_unlines_nil]
  · rw [splitlines_unlines hnil, flatMap_physicalLines h]

def appended (header : Str) : List (Str × Str) → List Str
  | [] => []
  | kv :: rest => [[], header] ++ (kv :: rest).map renderLine

theorem mergeEnv_eq (header : Str) (updates : Dict Str Str) (lines : List Str) :
    mergeEnv header updates lines =
      lines.map (mergeLine updates) ++ appended header (remainder updates lines) := by
  rw [mergeEnv]
  cases remainder updates lines with
  | nil => exact (List.append_nil _).symm
  | cons kv rest => exact List.append_assoc ..

theorem mem_appended {header line : Str} {rest : List (Str × Str)}
    (h : line ∈ appended header rest) :
    line = [] ∨ line = header ∨ ∃ kv ∈ rest, renderLine kv = line := by
  cases rest with
  | nil => cases h
  | cons kv rest =>
    rcases List.mem_append.mp h with hhead | hrest
    · rcases List.mem_cons.mp hhead with hblank | hhead
      · exact Or.inl hblank
      · exact Or.inr (Or.inl (List.mem_singleton.mp hhead))
    · exact Or.inr (Or.inr (List.mem_map.mp hrest))

theorem lineKey_nil : lineKey [] = none := by decide

section Merge

variable {header : Str} {updates : Dict Str Str} {lines : List Str}

theorem WellFormed.oneLine (h : WellFormed updates) : OneLine updates :=
  fun kv hkv => ⟨(h kv hkv).1, (h kv hkv).2.1⟩

theorem lineKey_render (h : WellFormed updates) {kv : Str × Str} (hkv : kv ∈ updates.items) :
    lineKey (renderLine kv) = some kv.1 :=
  lineKey_of_parseLine (parseLine_render (h kv hkv).1 kv.2)

theorem breakFree_render (h : WellFormed updates) {kv : Str × Str} (hkv : kv ∈ updates.items) :
    BreakFree (renderLine kv) := by
  obtain ⟨hkey, hvalue, -⟩ := h kv hkv
  exact breakFree_append.mpr ⟨hkey.breakFree, breakFree_cons.mpr ⟨by decide, hvalue⟩⟩

theorem unrelated_of_none {line : Str} (h : lineKey line = none) : Unrelated updates line := by
  intro key hkey
  rw [h] at hkey
  cases hkey

theorem mergeLine_of_unrelated {line : Str} (h : Unrelated updates line) :
    mergeLine updates line = line := by
  rw [mergeLine]
  cases hkey : lineKey line with
  | none => rfl
  | some key =>
    dsimp only
    rw [h key hkey]

theorem mergeLine_of_key {line key value : Str} (hkey : lineKey line = some key)
    (hvalue : updates.get key = some value) : mergeLine updates line = renderLine (key, value) := by
  rw [mergeLine, hkey]
  dsimp only
  rw [hvalue]

theorem isUpdatedLine_mergeLine (line : Str) :
    IsUpdatedLine updates line (mergeLine updates line) :=
  ⟨mergeLine_of_unrelated, fun _ _ => mergeLine_of_key⟩

theorem unrelated_or (updates : Dict Str Str) (line : Str) : Unrelated updates line ∨
    ∃ key value, lineKey line = some key ∧ updates.get key = some value := by
  cases hkey : lineKey line with
  | none => exact Or.inl (unrelated_of_none hkey)
  | some key =>
    cases hvalue : updates.get key with
    | none =>
      refine Or.inl fun key' h => ?_
      rw [hkey] at h
      cases h
      exact hvalue
    | some value => exact Or.inr ⟨key, value, rfl, hvalue⟩

theorem lineKey_mergeLine (h : WellFormed updates) (line : Str) :
    lineKey (mergeLine updates line) = lineKey line := by
  rcases unrelated_or updates line with hline | ⟨key, value, hkey, hvalue⟩
  · rw [mergeLine_of_unrelated hline]
  · rw [mergeLine_of_key hkey hvalue, hkey]
    exact lineKey_render h (Dict.get_eq_some_iff.mp hvalue)

theorem mergeLine_mergeLine (h : WellFormed updates) (line : Str) :
    mergeLine updates (mergeLine updates line) = mergeLine updates line := by
  rcases unrelated_or updates line with hline | ⟨key, value, hkey, hvalue⟩
  · rw [mergeLine_of_unrelated hline, mergeLine_of_unrelated hline]
  · have hagain : lineKey (mergeLine updates line) = some key := by rw [lineKey_mergeLine h, hkey]
    rw [mergeLine_of_key hagain hvalue, mergeLine_of_key hkey hvalue]

theorem mem_items_of_mem_remainder {kv : Str × Str} (h : kv ∈ remainder updates lines) :
    kv ∈ updates.items :=
  (List.mem_filter.mp h).1

theorem mem_remainder_iff {kv : Str × Str} : kv ∈ remainder updates lines ↔
    kv ∈ updates.items ∧ kv.1 ∉ lines.filterMap lineKey := by
  rw [remainder, List.mem_filter, decide_eq_true_eq, updatedKeys, List.mem_filter]
  refine and_congr_right fun hkv => not_congr (and_iff_left ?_)
  exact decide_eq_true (List.mem_map_of_mem hkv)

theorem breakFree_mergeEnv (h : WellFormed updates) (hb : BreakFree header)
    (hl : ∀ l ∈ lines, BreakFree l) : ∀ l ∈ mergeEnv header updates lines, BreakFree l := by
  intro l hmem
  rw [mergeEnv_eq] at hmem
  rcases List.mem_append.mp hmem with hline | hadded
  · obtain ⟨line, hin, rfl⟩ := List.mem_map.mp hline
    rcases unrelated_or updates line with hu | ⟨key, value, hkey, hvalue⟩
    · rw [mergeLine_of_unrelated hu]
      exact hl line hin
    · rw [mergeLine_of_key hkey hvalue]
      exact breakFree_render h (Dict.get_eq_some_iff.mp hvalue)
  · rcases mem_appended hadded with rfl | rfl | ⟨kv, hkv, rfl⟩
    · exact breakFree_nil
    · exact hb
    · exact breakFree_render h (mem_items_of_mem_remainder hkv)

/-! ### The second merge -/

theorem remainder_mergeEnv (h : WellFormed updates) :
    remainder updates (mergeEnv header updates lines) = [] := by
  refine List.eq_nil_iff_forall_not_mem.mpr fun kv hkv => ?_
  obtain ⟨hitem, hnot⟩ := mem_remainder_iff.mp hkv
  apply hnot
  rw [mergeEnv_eq, List.filterMap_append, List.mem_append]
  by_cases hline : kv.1 ∈ lines.filterMap lineKey
  · obtain ⟨line, hin, hkey⟩ := List.mem_filterMap.mp hline
    refine Or.inl (List.mem_filterMap.mpr ⟨mergeLine updates line, List.mem_map_of_mem hin, ?_⟩)
    rw [lineKey_mergeLine h, hkey]
  · have hrest : kv ∈ remainder updates lines := mem_remainder_iff.mpr ⟨hitem, hline⟩
    refine Or.inr (List.mem_filterMap.mpr ⟨renderLine kv, ?_, lineKey_render h hitem⟩)
    cases hcases : remainder updates lines with
    | nil =>
      rw [hcases] at hrest
      cases hrest
    | cons first rest =>
      rw [hcases] at hrest
      exact List.mem_append_right _ (List.mem_map_of_mem hrest)

theorem mergeLine_of_mem_mergeEnv (h : WellFormed updates) (hh : lineKey header = none)
    {line : Str} (hmem : line ∈ mergeEnv header updates lines) : mergeLine updates line = line := by
  rw [mergeEnv_eq] at hmem
  rcases List.mem_append.mp hmem with hline | hadded
  · obtain ⟨old, -, rfl⟩ := List.mem_map.mp hline
    exact mergeLine_mergeLine h old
  · rcases mem_appended hadded with rfl | rfl | ⟨kv, hkv, rfl⟩
    · exact mergeLine_of_unrelated (unrelated_of_none lineKey_nil)
    · exact mergeLine_of_unrelated (unrelated_of_none hh)
    · have hitem := mem_items_of_mem_remainder hkv
      exact mergeLine_of_key (lineKey_render h hitem) (Dict.get_eq_some_iff.mpr hitem)

theorem mergeEnv_mergeEnv (h : WellFormed updates) (hh : lineKey header = none) :
    mergeEnv header updates (mergeEnv header updates lines) = mergeEnv header updates lines := by
  have hsame : (mergeEnv header updates lines).map (mergeLine updates) =
      mergeEnv header updates lines := by
    conv_rhs => rw [← List.map_id (mergeEnv header updates lines)]
    exact List.map_congr_left fun line hline => mergeLine_of_mem_mergeEnv h hh hline
  rw [mergeEnv_eq header updates (mergeEnv header updates lines), remainder_mergeEnv h, hsame]
  exact List.append_nil _

theorem mergeEnv_eq_nil (h : mergeEnv header updates lines = []) :
    lines = [] ∧ updates.items = [] := by
  rw [mergeEnv_eq] at h
  obtain ⟨hlines, hadded⟩ := List.append_eq_nil_iff.mp h
  have hnil : lines = [] := List.map_eq_nil_iff.mp hlines
  refine ⟨hnil, List.eq_nil_iff_forall_not_mem.mpr fun kv hkv => ?_⟩
  have hrest : kv ∈ remainder updates lines :=
    mem_remainder_iff.mpr ⟨hkv, hnil ▸ List.not_mem_nil⟩
  cases hcases : remainder updates lines with
  | nil =>
    rw [hcases] at hrest
    cases hrest
  | cons first rest =>
    rw [hcases] at hadded
    cases hadded

theorem unlines_mergeEnv_again (h : WellFormed updates) (hh : lineKey header = none)
    (hb : BreakFree header) (hl : ∀ l ∈ lines, BreakFree l) :
    unlines (mergeEnv header updates (readLines (unlines (mergeEnv header updates lines)))) =
      unlines (mergeEnv header updates lines) := by
  rw [readLines_unlines (breakFree_mergeEnv h hb hl)]
  split_ifs with hnil
  · -- an empty file and no updates leave one blank line
    obtain ⟨-, hitems⟩ := mergeEnv_eq_nil hnil
    have hno : remainder updates [[]] = [] := by rw [remainder, hitems, List.filter_nil]
    have hblank : mergeLine updates [] = [] :=
      mergeLine_of_unrelated (unrelated_of_none lineKey_nil)
    rw [mergeEnv_eq, hno, hnil, List.map_singleton, hblank]
    rfl
  · rw [mergeEnv_mergeEnv h hh]

/-! ### The merge as an update -/

theorem get_ne_none_of_appended (h : WellFormed updates) (hh : lineKey header = none)
    {line key : Str} (hadded : line ∈ appended header (remainder updates lines))
    (hkey : lineKey line = some key) : updates.get key ≠ none := by
  rcases mem_appended hadded with rfl | rfl | ⟨kv, hkv, rfl⟩
  · rw [lineKey_nil] at hkey
    cases hkey
  · rw [hh] at hkey
    cases hkey
  · have hitem := mem_items_of_mem_remainder hkv
    rw [lineKey_render h hitem] at hkey
    cases hkey
    rw [Dict.get_eq_some_iff.mpr hitem]
    exact Option.some_ne_none kv.2

theorem avoids_updated (h : WellFormed updates) :
    Avoids (fun key => updates.get key = none) (writtenKeys updates.items) := by
  intro key hkey
  rw [writtenKeys, written_of_breakFree h.oneLine, List.map_map] at hkey
  obtain ⟨kv, hkv, rfl⟩ := List.mem_map.mp hkey
  have hvalue : updates.get kv.1 = some kv.2 := Dict.get_eq_some_iff.mpr hkv
  refine decide_eq_false ?_
  rw [Function.comp_apply, hvalue]
  exact Option.some_ne_none kv.2

theorem isUpdate_mergeEnv (h : WellFormed updates) (hh : parseLine header = none)
    (hb : BreakFree header) (content : Str) :
    IsUpdate updates content (unlines (mergeEnv header updates (readLines content))) where
  put key value hvalue := by
    have hread := get_readEnv_mergeEnv hh hb h.oneLine (readLines_breakFree content) hvalue
    have hstripped : strip value = value := (h _ (Dict.get_eq_some_iff.mp hvalue)).2.2
    rw [hread, hstripped]
  frame key hnone :=
    get_readEnv_congr (onKeys_mergeEnv hh hb (readLines_breakFree content) (avoids_updated h))
      (decide_eq_true hnone)
  lines := by
    have hkey : lineKey header = none := by rw [lineKey, hh, Option.map_none]
    have hkept : List.Forall₂ (IsUpdatedLine updates) (readLines content)
        ((readLines content).map (mergeLine updates)) := by
      rw [List.forall₂_map_right_iff, List.forall₂_same]
      exact fun line _ => isUpdatedLine_mergeLine line
    rw [readLines_unlines (breakFree_mergeEnv h hb (readLines_breakFree content))]
    split_ifs with hnil
    · obtain ⟨hlines, -⟩ := mergeEnv_eq_nil hnil
      rw [hlines]
      refine ⟨[], [[]], rfl, List.Forall₂.nil, fun line hline key hkey => ?_⟩
      rw [List.mem_singleton.mp hline, lineKey_nil] at hkey
      cases hkey
    · exact ⟨_, _, mergeEnv_eq header updates (readLines content), hkept,
        fun line hline key => get_ne_none_of_appended h hkey hline⟩

end Merge

theorem writeEnv_eq (envFile envExample : Option Str) (updates : Dict Str Str) :
    writeEnv envFile envExample updates =
      unlines (mergeEnv "# --- set by HADCD provisioner ---".toList updates
        (readLines ((envFile.or envExample).getD []))) := by
  rw [writeEnv]
  cases envFile.or envExample with
  | none => rfl
  | some content => rfl

/-- `_write_env`, on the file, the template or neither, and `_apply_pending_config`
are updates, and a second one leaves the text as it is. -/
theorem rewrites_lawful (updates : Dict Str Str) (h : WellFormed updates) :
    (∀ envFile envExample,
      IsUpdate updates ((envFile.or envExample).getD []) (writeEnv envFile envExample updates) ∧
      writeEnv (some (writeEnv envFile envExample updates)) envExample updates =
        writeEnv envFile envExample updates) ∧
    ∀ content, IsUpdate updates content (applyPendingConfig content updates) ∧
      applyPendingConfig (applyPendingConfig content updates) updates =
        applyPendingConfig content updates := by
  constructor
  · intro envFile envExample
    simp only [writeEnv_eq, Option.some_or, Option.getD_some]
    exact ⟨isUpdate_mergeEnv h (by decide) (by decide) _,
      unlines_mergeEnv_again h (by decide) (by decide) (readLines_breakFree _)⟩
  · intro content
    exact ⟨isUpdate_mergeEnv h (by decide) (by decide) content,
      unlines_mergeEnv_again h (by decide) (by decide) (readLines_breakFree content)⟩

theorem rewrites_lawful_machineId :
    (applyPendingConfig (applyPendingConfig "# id\nVASTAI_MACHINE_ID = 1\nVASTAI_MACHINE_ID=2"
        ⟨[(machineIdKey, "7".toList)], by decide⟩) ⟨[(machineIdKey, "7".toList)], by decide⟩) =
      applyPendingConfig "# id\nVASTAI_MACHINE_ID = 1\nVASTAI_MACHINE_ID=2"
        ⟨[(machineIdKey, "7".toList)], by decide⟩ :=
  ((rewrites_lawful ⟨[(machineIdKey, "7".toList)], by decide⟩ (by decide)).2
    "# id\nVASTAI_MACHINE_ID = 1\nVASTAI_MACHINE_ID=2").2

end HadcdAgent.EnvFile
