import HadcdAgent.EnvFile.Update

/-!
# The machine id and the three rewriters

`_persist_machine_id` (`agent/vast_provider.py`) looks for lines that start with
`VASTAI_MACHINE_ID=`; `_read_env` and the other two rewriters look for the key of the
stripped line.
-/

namespace HadcdAgent.EnvFile

open Lib Lib.PyStr

/-! ### Agreement -/

def machineIdUpdate (machineId : Str) : Dict Str Str :=
  ⟨[(machineIdKey, machineId)], List.nodup_singleton _⟩

/-- The three files are read as one map, and it holds the id. -/
structure RewritersAgree (content machineId : Str) : Prop where
  writeEnv : ∀ envExample key, (readEnv (persistMachineId content machineId)).get key =
    (readEnv (writeEnv (some content) envExample (machineIdUpdate machineId))).get key
  applyPendingConfig : ∀ key, (readEnv (persistMachineId content machineId)).get key =
    (readEnv (applyPendingConfig content (machineIdUpdate machineId))).get key
  readsBack : (readEnv (persistMachineId content machineId)).get machineIdKey = some machineId

def machineIdLines (content : Str) : List Str :=
  (readLines content).filter fun line => lineKey line = some machineIdKey

/-- No line is written over, or the one that counts, or it holds the id already. -/
def Overwrites (content machineId : Str) : Prop :=
  (∀ line ∈ machineIdLines content, isMachineIdLine line = false) ∨
  (∃ line, (machineIdLines content).getLast? = some line ∧ isMachineIdLine line = true) ∨
  (readEnv content).get machineIdKey = some machineId

/-! ### The last line with a key -/

theorem lastValue_filterMap_parseLine (key : Str) (lines : List Str) :
    lastValue key (lines.filterMap parseLine) =
      (((lines.filter fun line => lineKey line = some key).getLast?).bind parseLine).map
        Prod.snd := by
  induction lines using List.reverseRecOn with
  | nil => rfl
  | append_singleton lines line ih =>
    rw [List.filterMap_append, lastValue_append, ih, List.filter_append]
    by_cases hkey : lineKey line = some key
    · obtain ⟨kv, hparse, rfl⟩ := Option.map_eq_some_iff.mp hkey
      have hlast : [line].filter (fun line => lineKey line = some kv.1) = [line] := by simp [hkey]
      have hvalue : lastValue kv.1 ([line].filterMap parseLine) = some kv.2 := by
        simp [hparse, lastValue]
      rw [hlast, hvalue, List.getLast?_concat, Option.bind_some, hparse]
      rfl
    · have hlast : [line].filter (fun line => lineKey line = some key) = [] := by simp [hkey]
      have hvalue : lastValue key ([line].filterMap parseLine) = none := by
        cases hparse : parseLine line with
        | none => simp [hparse, lastValue]
        | some kv =>
          have hne : kv.1 ≠ key := by
            intro heq
            exact hkey (by rw [lineKey, hparse, Option.map_some, heq])
          simp [hparse, lastValue, hne]
      rw [hlast, hvalue, List.append_nil, Option.none_or]

theorem get_readEnv_eq_last (content key : Str) :
    (readEnv content).get key =
      (((readLines content).filter fun line => lineKey line = some key).getLast?.bind
        parseLine).map Prod.snd := by
  rw [get_readEnv, assignments, lastValue_filterMap_parseLine]

/-! ### What `_persist_machine_id` leaves for the reader -/

section MachineId

variable {content machineId : Str}

theorem wellFormed_machineIdUpdate (hb : BreakFree machineId) (hs : Stripped machineId) :
    WellFormed (machineIdUpdate machineId) := by
  intro kv hkv
  rw [List.mem_singleton.mp hkv]
  exact ⟨isKey_machineIdKey, hb, hs⟩

/-- The line that `_persist_machine_id` puts in the place of another. -/
def persistLine (machineId line : Str) : Str :=
  if isMachineIdLine line then renderLine (machineIdKey, machineId) else line

theorem parseLine_machineId (hs : Stripped machineId) :
    parseLine (renderLine (machineIdKey, machineId)) = some (machineIdKey, machineId) := by
  have hstripped : strip machineId = machineId := hs
  rw [parseLine_render isKey_machineIdKey, hstripped]

theorem breakFree_machineIdLine (hb : BreakFree machineId) :
    BreakFree (renderLine (machineIdKey, machineId)) :=
  breakFree_append.mpr ⟨isKey_machineIdKey.breakFree, breakFree_cons.mpr ⟨by decide, hb⟩⟩

theorem lineKey_of_isMachineIdLine {line : Str} (h : isMachineIdLine line = true) :
    lineKey line = some machineIdKey := by
  obtain ⟨value, hparse⟩ := parseLine_of_isMachineIdLine h
  exact lineKey_of_parseLine hparse

theorem lineKey_persistLine (hs : Stripped machineId) (line : Str) :
    lineKey (persistLine machineId line) = lineKey line := by
  rw [persistLine]
  split_ifs with hline
  · rw [lineKey_of_isMachineIdLine hline]
    exact lineKey_of_parseLine (parseLine_machineId hs)
  · rfl

theorem readLines_persistMachineId (hb : BreakFree machineId) :
    readLines (persistMachineId content machineId) =
      (readLines content).map (persistLine machineId) ++
        if (readLines content).any isMachineIdLine then []
        else [renderLine (machineIdKey, machineId)] := by
  have hkept : ∀ l ∈ (readLines content).map (persistLine machineId), BreakFree l := by
    intro l hl
    obtain ⟨line, hline, rfl⟩ := List.mem_map.mp hl
    rw [persistLine]
    split_ifs with hid
    · exact breakFree_machineIdLine hb
    · exact readLines_breakFree content line hline
  rw [persistMachineId]
  change readLines (unlines (if _ then (readLines content).map (persistLine machineId)
    else (readLines content).map (persistLine machineId) ++ [_])) = _
  split_ifs with hany
  · rw [readLines_unlines hkept, List.append_nil, if_neg]
    intro hnil
    rw [List.map_eq_nil_iff.mp hnil] at hany
    cases hany
  · rw [readLines_unlines, if_neg (by simp)]
    intro l hl
    rcases List.mem_append.mp hl with hl | hl
    · exact hkept l hl
    · rw [List.mem_singleton.mp hl]
      exact breakFree_machineIdLine hb

theorem filter_persistLine (hs : Stripped machineId) (lines : List Str) :
    (lines.map (persistLine machineId)).filter (fun line => lineKey line = some machineIdKey) =
      (lines.filter fun line => lineKey line = some machineIdKey).map (persistLine machineId) := by
  rw [List.filter_map]
  congr 1
  refine List.filter_congr fun line _ => ?_
  rw [Function.comp_apply, lineKey_persistLine hs]

/-- The id is read back from the line appended, or from what became of the last line
with the key. -/
theorem get_readEnv_persistMachineId (hb : BreakFree machineId) (hs : Stripped machineId) :
    (readEnv (persistMachineId content machineId)).get machineIdKey =
      if (readLines content).any isMachineIdLine then
        ((machineIdLines content).getLast?.bind fun line =>
          parseLine (persistLine machineId line)).map Prod.snd
      else some machineId := by
  rw [get_readEnv_eq_last, readLines_persistMachineId hb, List.filter_append,
    filter_persistLine hs]
  split_ifs with hany
  · rw [List.filter_nil, List.append_nil, List.getLast?_map, Option.bind_map]
    rfl
  · have hnew : [renderLine (machineIdKey, machineId)].filter
        (fun line => lineKey line = some machineIdKey) =
        [renderLine (machineIdKey, machineId)] := by
      simp [lineKey_of_parseLine (parseLine_machineId hs)]
    rw [hnew, List.getLast?_concat, Option.bind_some, parseLine_machineId hs]
    rfl

theorem mem_machineIdLines_iff {line : Str} :
    line ∈ machineIdLines content ↔
      line ∈ readLines content ∧ lineKey line = some machineIdKey := by
  rw [machineIdLines, List.mem_filter, decide_eq_true_eq]

theorem any_isMachineIdLine_iff : (readLines content).any isMachineIdLine = true ↔
    ∃ line ∈ machineIdLines content, isMachineIdLine line = true := by
  rw [List.any_eq_true]
  constructor
  · rintro ⟨line, hline, hid⟩
    exact ⟨line, mem_machineIdLines_iff.mpr ⟨hline, lineKey_of_isMachineIdLine hid⟩, hid⟩
  · rintro ⟨line, hline, hid⟩
    exact ⟨line, (mem_machineIdLines_iff.mp hline).1, hid⟩

theorem readsBack_iff (hb : BreakFree machineId) (hs : Stripped machineId) :
    (readEnv (persistMachineId content machineId)).get machineIdKey = some machineId ↔
      Overwrites content machineId := by
  rw [get_readEnv_persistMachineId hb hs, Overwrites, get_readEnv_eq_last, ← machineIdLines]
  by_cases hany : (readLines content).any isMachineIdLine = true
  · rw [if_pos hany]
    obtain ⟨line, hline, hid⟩ := any_isMachineIdLine_iff.mp hany
    have hwritten : ¬ ∀ line ∈ machineIdLines content, isMachineIdLine line = false := by
      intro hnone
      rw [hnone line hline] at hid
      cases hid
    obtain ⟨last, hlast⟩ : ∃ last, (machineIdLines content).getLast? = some last :=
      ⟨_, List.getLast?_eq_some_getLast (List.ne_nil_of_mem hline)⟩
    rw [hlast, Option.bind_some, Option.bind_some, persistLine, or_iff_right hwritten]
    by_cases hid' : isMachineIdLine last = true
    · rw [if_pos hid', parseLine_machineId hs]
      simp [hid']
    · rw [if_neg hid']
      simp [hid']
  · rw [if_neg hany]
    refine iff_of_true rfl (Or.inl fun line hline => ?_)
    rw [← Bool.not_eq_true]
    exact fun hid => hany (any_isMachineIdLine_iff.mpr ⟨line, hline, hid⟩)

theorem get_readEnv_persistMachineId_of_ne (hb : BreakFree machineId) {key : Str}
    (hkey : key ≠ machineIdKey) :
    (readEnv (persistMachineId content machineId)).get key = (readEnv content).get key := by
  have havoids : Avoids (fun k => k = key) (writtenKeys [(machineIdKey, machineId)]) := by
    rw [writtenKeys, written_singleton isKey_machineIdKey hb]
    intro k hk
    rw [List.mem_singleton.mp hk]
    exact decide_eq_false hkey.symm
  exact get_readEnv_congr (onKeys_persistMachineId content machineId havoids) (decide_eq_true rfl)

theorem get_machineIdUpdate_of_ne {key : Str} (hkey : key ≠ machineIdKey) :
    (machineIdUpdate machineId).get key = none := by
  rw [Dict.get_eq_none_iff]
  exact fun hmem => hkey (List.mem_singleton.mp hmem)

theorem get_machineIdUpdate_self :
    (machineIdUpdate machineId).get machineIdKey = some machineId :=
  Dict.get_eq_some_iff.mpr (List.mem_singleton_self _)

/-- A file updated with the id is read as the file of `_persist_machine_id`, if that
reads back the id. -/
theorem get_eq_of_isUpdate (hb : BreakFree machineId) {new : Str}
    (hnew : IsUpdate (machineIdUpdate machineId) content new)
    (hback : (readEnv (persistMachineId content machineId)).get machineIdKey = some machineId)
    (key : Str) :
    (readEnv (persistMachineId content machineId)).get key = (readEnv new).get key := by
  by_cases hkey : key = machineIdKey
  · rw [hkey, hback, hnew.put machineIdKey machineId get_machineIdUpdate_self]
  · rw [get_readEnv_persistMachineId_of_ne hb hkey,
      hnew.frame key (get_machineIdUpdate_of_ne hkey)]

end MachineId

/-- The rewriters agree where the last line with the key is one that
`_persist_machine_id` sees. -/
theorem rewritersAgree_iff (content machineId : Str) (hb : BreakFree machineId)
    (hs : Stripped machineId) :
    RewritersAgree content machineId ↔ Overwrites content machineId := by
  have hwell := wellFormed_machineIdUpdate hb hs
  rw [← readsBack_iff hb hs]
  constructor
  · exact RewritersAgree.readsBack
  · intro hback
    refine ⟨fun envExample => ?_, ?_, hback⟩
    · rw [writeEnv_eq]
      exact get_eq_of_isUpdate hb (isUpdate_mergeEnv hwell (by decide) (by decide) content) hback
    · exact get_eq_of_isUpdate hb (isUpdate_mergeEnv hwell (by decide) (by decide) content) hback

/-- The second line is indented: it keeps the old id and is the one that counts. -/
theorem not_rewritersAgree_indented :
    ¬ RewritersAgree "VASTAI_MACHINE_ID=1\n VASTAI_MACHINE_ID=2" "7" := by
  intro h
  have hback := h.readsBack
  revert hback
  decide +kernel

theorem rewritersAgree_spaced :
    RewritersAgree " VASTAI_MACHINE_ID=1\nVASTAI_MACHINE_ID=2" "7" :=
  (rewritersAgree_iff " VASTAI_MACHINE_ID=1\nVASTAI_MACHINE_ID=2" "7" (by decide) (by decide)).mpr
    (Or.inr (Or.inl ⟨"VASTAI_MACHINE_ID=2", by decide +kernel, by decide⟩))

end HadcdAgent.EnvFile
