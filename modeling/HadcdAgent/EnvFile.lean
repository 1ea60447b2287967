import HadcdAgent.Lib.PyStr
import HadcdAgent.Lib.Dict

/-!
# agent.env: one reader, three line-wise rewriters

`_read_env` and `_write_env` (`agent/provisioner.py`), `_apply_pending_config`
(`agent/agent.py`) and `_persist_machine_id` (`agent/vast_provider.py`). All of
them open the file in text mode and cut it with `str.splitlines`; the rewriters
join lines by `"\n"`. A value may itself hold a line boundary, so what a rewriter
writes is read back through `written`.
-/

namespace HadcdAgent.EnvFile

open Lib Lib.PyStr

/-! ### Reading -/

/-- One pass of the loop of `_read_env`: blank lines, comments and lines without
`=` are skipped, else the stripped line is partitioned at the first `=`. -/
def parseLine (line : Str) : Option (Str × Str) :=
  let stripped := strip line
  if stripped = [] ∨ stripped.head? = some '#' then none
  else if '=' ∈ stripped then
    let kv := partition '=' stripped
    some (strip kv.1, strip kv.2)
  else none

def readLines (content : Str) : List Str := splitlines (universalNewlines content)

/-- The assignments `result[k] = v` that `_read_env` makes. -/
def assignments (content : Str) : List (Str × Str) := (readLines content).filterMap parseLine

def readEnv (content : Str) : Dict Str Str := Dict.ofAssignments (assignments content)

/-! ### Rewriting -/

/-- The key the rewriters see in a line: the guard of `_read_env`, then
`stripped.split("=", 1)[0].strip()`. -/
def lineKey (line : Str) : Option Str := (parseLine line).map Prod.fst

def renderLine (kv : Str × Str) : Str := kv.1 ++ '=' :: kv.2

def mergeLine (updates : Dict Str Str) (line : Str) : Str :=
  match lineKey line with
  | none => line
  | some key =>
    match updates.get key with
    | none => line
    | some value => renderLine (key, value)

def updatedKeys (updates : Dict Str Str) (lines : List Str) : List Str :=
  (lines.filterMap lineKey).filter fun key => key ∈ updates.keys

/-- `remainder`: the updates whose key no line has. -/
def remainder (updates : Dict Str Str) (lines : List Str) : List (Str × Str) :=
  updates.items.filter fun kv => kv.1 ∉ updatedKeys updates lines

/-- The lines that `_write_env` and `_apply_pending_config` write; they differ in
the comment above the appended keys. -/
def mergeEnv (header : Str) (updates : Dict Str Str) (lines : List Str) : List Str :=
  let newLines := lines.map (mergeLine updates)
  match remainder updates lines with
  | [] => newLines
  | rest => newLines ++ [[], header] ++ rest.map renderLine

/-- `_write_env`: `envFile` and `envExample` are the contents of `ENV_FILE` and
`ENV_EXAMPLE`, `none` when the file does not exist. -/
def writeEnv (envFile envExample : Option Str) (updates : Dict Str Str) : Str :=
  let lines := match envFile.or envExample with
    | some content => readLines content
    | none => []
  unlines (mergeEnv "# --- set by HADCD provisioner ---".toList updates lines)

/-- `_apply_pending_config` on the file it found; `config` holds `str(value)`. -/
def applyPendingConfig (content : Str) (config : Dict Str Str) : Str :=
  unlines (mergeEnv "# --- set by HADCD remote config push ---".toList config (readLines content))

def machineIdKey : Str := "VASTAI_MACHINE_ID".toList

def isMachineIdLine (line : Str) : Bool := (machineIdKey ++ ['=']).isPrefixOf line

def persistMachineId (content : Str) (machineId : Str) : Str :=
  let lines := readLines content
  let newLine := renderLine (machineIdKey, machineId)
  let newLines := lines.map fun line => if isMachineIdLine line then newLine else line
  unlines (if lines.any isMachineIdLine then newLines else newLines ++ [newLine])

/-- The assignments that the lines rendered for these pairs are read back as. -/
def written (kvs : List (Str × Str)) : List (Str × Str) :=
  (kvs.flatMap fun kv => physicalLines (renderLine kv)).filterMap parseLine

def writtenKeys (kvs : List (Str × Str)) : List Str := (written kvs).map Prod.fst

/-- A rewrite of the file by the running agent. `unencodable` is one whose text
holds a lone surrogate: `write_text` truncates the file before the encoder
refuses the text. -/
inductive Rewrite where
  | persistMachineId (machineId : Str)
  | applyPendingConfig (config : Dict Str Str)
  | unencodable

def Rewrite.apply (content : Str) : Rewrite → Str
  | .persistMachineId machineId => EnvFile.persistMachineId content machineId
  | .applyPendingConfig config => EnvFile.applyPendingConfig content config
  | .unencodable => []

/-! ### Keys and values that the reader yields -/

/-- A key as it comes out of a line. -/
structure IsKey (k : Str) : Prop where
  stripped : Stripped k
  noEq : '=' ∉ k
  breakFree : BreakFree k
  noComment : k.head? ≠ some '#'

instance (k : Str) : Decidable (IsKey k) :=
  decidable_of_iff (Stripped k ∧ '=' ∉ k ∧ BreakFree k ∧ k.head? ≠ some '#')
    ⟨fun h => ⟨h.1, h.2.1, h.2.2.1, h.2.2.2⟩, fun h => ⟨h.1, h.2, h.3, h.4⟩⟩

theorem isSpace_eq : isSpace '=' = false := by decide

theorem lstrip_render {k : Str} (hk : IsKey k) (v : Str) :
    lstrip (renderLine (k, v)) = renderLine (k, v) := by
  cases k with
  | nil => simp [renderLine, lstrip, isSpace_eq]
  | cons c k => simp [renderLine, lstrip, hk.stripped.head]

theorem strip_render {k : Str} (hk : IsKey k) (v : Str) :
    strip (renderLine (k, v)) = k ++ '=' :: v.rdropWhile isSpace := by
  rw [strip, lstrip_render hk]
  exact rdropWhile_append_cons isSpace_eq k v

theorem parseLine_render {k : Str} (hk : IsKey k) (v : Str) :
    parseLine (renderLine (k, v)) = some (k, strip v) := by
  have hstrip := strip_render hk v
  have hhead : (k ++ '=' :: v.rdropWhile isSpace).head? ≠ some '#' := by
    cases k with
    | nil => simp
    | cons c k => simpa using hk.noComment
  simp only [parseLine, hstrip]
  rw [if_neg (not_or.mpr ⟨by simp, hhead⟩), if_pos (by simp), partition_append hk.noEq]
  have hks : strip k = k := hk.stripped
  simp only [hks, strip_rdropWhile]

theorem parseLine_nil : parseLine [] = none := by decide

/-- What a line yields is a key and a stripped value without boundaries. -/
theorem parseLine_some {line k v : Str} (hl : BreakFree line)
    (h : parseLine line = some (k, v)) : IsKey k ∧ Stripped v ∧ BreakFree v := by
  simp only [parseLine] at h
  split_ifs at h with h1 h2
  push Not at h1
  simp only [Option.some.injEq, Prod.mk.injEq] at h
  obtain ⟨rfl, rfl⟩ := h
  have hb : BreakFree (strip line) := hl.strip
  refine ⟨⟨stripped_strip _, fun hm => ?_, ?_, fun hc => ?_⟩, stripped_strip _, ?_⟩
  · exact partition_fst_not_mem '=' (strip line) ((strip_sublist _).subset hm)
  · exact (hb.sublist (partition_fst_sublist '=' _)).strip
  · -- the first character of the line is no whitespace, so `strip` keeps it
    cases hs : strip line with
    | nil => exact h1.1 hs
    | cons c t =>
      have hc0 : isSpace c = false := Stripped.head (hs ▸ stripped_strip line)
      have hce : c ≠ '=' ∨ c = '=' := ne_or_eq c '='
      rcases hce with hne | rfl
      · have hp : (partition '=' (c :: t)).1 = [] ++ c :: t.takeWhile (· != '=') := by
          simp [partition, hne]
        rw [hs, hp, strip, show lstrip ([] ++ c :: t.takeWhile (· != '=')) = _ from by
          simp [lstrip, hc0]; rfl] at hc
        have hr := rdropWhile_append_cons hc0 [] (t.takeWhile (· != '='))
        simp only [List.nil_append] at hr hc
        rw [hr] at hc
        exact h1.2 (by rw [hs]; simpa using hc)
      · have hp : (partition '=' ('=' :: t)).1 = [] := by simp [partition]
        rw [hs, hp] at hc
        simp [strip, lstrip] at hc
  · exact (hb.sublist (partition_snd_sublist '=' _)).strip

/-! ### Reading back what a rewriter wrote -/

theorem get_readEnv (content : Str) (k : Str) :
    (readEnv content).get k = lastValue k (assignments content) :=
  Dict.get_ofAssignments _ _

theorem readLines_breakFree (content : Str) : ∀ l ∈ readLines content, BreakFree l :=
  splitlines_breakFree _

theorem readEnv_breakFree {content k v : Str} (h : (readEnv content).get k = some v) :
    BreakFree v := by
  rw [get_readEnv] at h
  obtain ⟨line, hl, hp⟩ := List.mem_filterMap.mp (mem_of_lastValue_eq_some h)
  exact (parseLine_some (readLines_breakFree content line hl) hp).2.2

theorem assignments_unlines (ls : List Str) :
    assignments (unlines ls) = (ls.flatMap physicalLines).filterMap parseLine := by
  rw [assignments, readLines, splitlines_universalNewlines]
  by_cases h : ls = []
  · subst h
    rw [splitlines_unlines_nil]
    simp [parseLine_nil]
  · rw [splitlines_unlines h]

theorem written_append (kvs kvs' : List (Str × Str)) :
    written (kvs ++ kvs') = written kvs ++ written kvs' := by
  simp [written]

theorem written_eq_flatMap (kvs : List (Str × Str)) :
    written kvs = kvs.flatMap fun kv => (physicalLines (renderLine kv)).filterMap parseLine := by
  simp [written, List.filterMap_flatMap]

theorem writtenKeys_of_mem {kvs : List (Str × Str)} {kv : Str × Str} (h : kv ∈ kvs) {k : Str}
    (hk : k ∈ writtenKeys [kv]) : k ∈ writtenKeys kvs := by
  obtain ⟨as, bs, rfl⟩ := List.append_of_mem h
  have hsplit : as ++ kv :: bs = as ++ ([kv] ++ bs) := by simp
  rw [writtenKeys, hsplit, written_append, written_append]
  simp only [List.map_append, List.mem_append]
  exact Or.inr (Or.inl hk)

theorem mem_writtenKeys_self {k : Str} (hk : IsKey k) (v : Str) : k ∈ writtenKeys [(k, v)] := by
  have hb : BreakFree (k ++ ['=']) :=
    breakFree_append.mpr ⟨hk.breakFree, by decide⟩
  obtain ⟨m, ms, hm⟩ := physicalLines_append hb v
  have hrender : renderLine (k, v) = (k ++ ['=']) ++ v := by simp [renderLine]
  have hfirst : (k ++ ['=']) ++ m = renderLine (k, m) := by simp [renderLine]
  have hlines : physicalLines (renderLine (k, v)) = renderLine (k, m) :: ms := by
    rw [hrender, hm, hfirst]
  have hwritten : written [(k, v)] = (k, strip m) :: ms.filterMap parseLine := by
    simp only [written, List.flatMap_cons, List.flatMap_nil, List.append_nil, hlines,
      List.filterMap_cons, parseLine_render hk]
  simp [writtenKeys, hwritten]

theorem written_singleton {k v : Str} (hk : IsKey k) (hv : BreakFree v) :
    written [(k, v)] = [(k, strip v)] := by
  have hb : BreakFree (renderLine (k, v)) :=
    breakFree_append.mpr ⟨hk.breakFree, breakFree_cons.mpr ⟨by decide, hv⟩⟩
  simp [written, physicalLines_of_breakFree hb, parseLine_render hk]

theorem written_of_breakFree {kvs : List (Str × Str)}
    (h : ∀ kv ∈ kvs, IsKey kv.1 ∧ BreakFree kv.2) :
    written kvs = kvs.map fun kv => (kv.1, strip kv.2) := by
  induction kvs with
  | nil => rfl
  | cons kv kvs ih =>
    have hkv := h kv (List.mem_cons_self ..)
    have hcons : kv :: kvs = [kv] ++ kvs := rfl
    rw [hcons, written_append, ih fun x hx => h x (List.mem_cons_of_mem kv hx)]
    rw [show [kv] = [(kv.1, kv.2)] from rfl, written_singleton hkv.1 hkv.2]
    rfl

theorem lineKey_of_parseLine {line k v : Str} (h : parseLine line = some (k, v)) :
    lineKey line = some k := by
  simp [lineKey, h]

/-! ### What a rewriter leaves alone -/

/-- The assignments to the keys that `p` selects. -/
def onKeys (p : Str → Bool) (kvs : List (Str × Str)) : List (Str × Str) :=
  kvs.filter fun kv => p kv.1

def Avoids (p : Str → Bool) (ks : List Str) : Prop := ∀ k ∈ ks, p k = false

instance (p : Str → Bool) (ks : List Str) : Decidable (Avoids p ks) :=
  inferInstanceAs (Decidable (∀ k ∈ ks, p k = false))

theorem onKeys_append (p : Str → Bool) (kvs kvs' : List (Str × Str)) :
    onKeys p (kvs ++ kvs') = onKeys p kvs ++ onKeys p kvs' :=
  List.filter_append kvs kvs'

theorem onKeys_of_avoids {p : Str → Bool} {kvs : List (Str × Str)}
    (h : Avoids p (kvs.map Prod.fst)) : onKeys p kvs = [] := by
  refine List.filter_eq_nil_iff.mpr fun kv hkv => ?_
  simp [h kv.1 (List.mem_map_of_mem hkv)]

theorem onKeys_written {p : Str → Bool} {kvs : List (Str × Str)}
    (h : Avoids p (writtenKeys kvs)) : onKeys p (written kvs) = [] :=
  onKeys_of_avoids h

theorem Avoids.of_mem {p : Str → Bool} {kvs : List (Str × Str)} (h : Avoids p (writtenKeys kvs))
    {kv : Str × Str} (hkv : kv ∈ kvs) : Avoids p (writtenKeys [kv]) :=
  fun k hk => h k (writtenKeys_of_mem hkv hk)

theorem lastValue_onKeys {p : Str → Bool} {k : Str} (hk : p k = true) (kvs : List (Str × Str)) :
    lastValue k (onKeys p kvs) = lastValue k kvs := by
  induction kvs with
  | nil => rfl
  | cons kv kvs ih =>
    obtain ⟨k', v⟩ := kv
    by_cases hp : p k' = true
    · have hcons : onKeys p ((k', v) :: kvs) = (k', v) :: onKeys p kvs := by simp [onKeys, hp]
      rw [hcons, lastValue, lastValue, ih]
    · have hcons : onKeys p ((k', v) :: kvs) = onKeys p kvs := by simp [onKeys, hp]
      have hne : k' ≠ k := fun he => hp (he ▸ hk)
      rw [hcons, ih, lastValue, if_neg hne, Option.or_none]

theorem filterMap_physicalLines_of_breakFree {line : Str} (hl : BreakFree line) :
    (physicalLines line).filterMap parseLine = (parseLine line).toList := by
  rw [physicalLines_of_breakFree hl]
  cases h : parseLine line <;> simp [h]

theorem filterMap_physicalLines_render (kv : Str × Str) :
    (physicalLines (renderLine kv)).filterMap parseLine = written [kv] := by
  simp [written]

theorem onKeys_replaceLine {p : Str → Bool} {line key old value : Str} (hl : BreakFree line)
    (hline : parseLine line = some (key, old)) (ha : Avoids p (writtenKeys [(key, value)])) :
    onKeys p ((physicalLines (renderLine (key, value))).filterMap parseLine) =
      onKeys p (parseLine line).toList := by
  have hkey : p key = false := ha key (mem_writtenKeys_self (parseLine_some hl hline).1 value)
  rw [filterMap_physicalLines_render, onKeys_written ha, hline]
  simp [onKeys, hkey]

theorem onKeys_mergeLine {p : Str → Bool} {updates : Dict Str Str} {line : Str}
    (hl : BreakFree line) (ha : Avoids p (writtenKeys updates.items)) :
    onKeys p ((physicalLines (mergeLine updates line)).filterMap parseLine) =
      onKeys p (parseLine line).toList := by
  cases hp : parseLine line with
  | none =>
    simp only [mergeLine, lineKey, hp, Option.map_none, filterMap_physicalLines_of_breakFree hl]
  | some kv =>
    obtain ⟨key, old⟩ := kv
    simp only [mergeLine, lineKey_of_parseLine hp]
    cases hget : updates.get key with
    | none => simp only [filterMap_physicalLines_of_breakFree hl, hp]
    | some value =>
      have hmem : (key, value) ∈ updates.items := Dict.get_eq_some_iff.mp hget
      rw [← hp]
      exact onKeys_replaceLine hl hp (ha.of_mem hmem)

/-- A line-wise rewrite that keeps the selected assignments of each line keeps
them in the file. -/
theorem onKeys_flatMap_congr {p : Str → Bool} {f : Str → Str} {lines : List Str}
    (h : ∀ l ∈ lines, onKeys p ((physicalLines (f l)).filterMap parseLine) =
      onKeys p (parseLine l).toList) :
    onKeys p (((lines.map f).flatMap physicalLines).filterMap parseLine) =
      onKeys p (lines.filterMap parseLine) := by
  induction lines with
  | nil => rfl
  | cons l ls ih =>
    have hsplit : (l :: ls).filterMap parseLine = (parseLine l).toList ++ ls.filterMap parseLine := by
      cases hp : parseLine l <;> simp [hp]
    rw [List.map_cons, List.flatMap_cons, List.filterMap_append, onKeys_append,
      h l (List.mem_cons_self ..), ih fun x hx => h x (List.mem_cons_of_mem l hx), hsplit,
      onKeys_append]

/-- Frame rule of the merge: assignments to keys that no update writes stay. -/
theorem onKeys_mergeEnv {header : Str} (hh : parseLine header = none) (hb : BreakFree header)
    {p : Str → Bool} {updates : Dict Str Str} {lines : List Str} (hl : ∀ l ∈ lines, BreakFree l)
    (ha : Avoids p (writtenKeys updates.items)) :
    onKeys p (assignments (unlines (mergeEnv header updates lines))) =
      onKeys p (lines.filterMap parseLine) := by
  have hlines := onKeys_flatMap_congr fun l hm => onKeys_mergeLine (hl l hm) ha
  have hhead : (([[], header] : List Str).flatMap physicalLines).filterMap parseLine = [] := by
    simp [physicalLines_of_breakFree hb, physicalLines_of_breakFree breakFree_nil, hh,
      parseLine_nil]
  have hrest : Avoids p (writtenKeys (remainder updates lines)) := by
    intro k hk
    rw [writtenKeys, written_eq_flatMap, List.map_flatMap] at hk
    obtain ⟨kv, hkv, hin⟩ := List.mem_flatMap.mp hk
    have hmem : kv ∈ updates.items := (List.mem_filter.mp hkv).1
    exact ha.of_mem hmem k (by simpa [writtenKeys, written] using hin)
  rw [assignments_unlines]
  simp only [mergeEnv]
  split
  · exact hlines
  · rw [List.append_assoc, List.flatMap_append, List.filterMap_append, onKeys_append, hlines,
      List.flatMap_append, List.filterMap_append, hhead, List.nil_append, List.flatMap_map]
    have hnil : onKeys p (written (remainder updates lines)) = [] := onKeys_written hrest
    rw [written] at hnil
    rw [hnil, List.append_nil]

theorem onKeys_writeEnv {p : Str → Bool} (envFile : Str) (envExample : Option Str)
    {updates : Dict Str Str} (ha : Avoids p (writtenKeys updates.items)) :
    onKeys p (assignments (writeEnv (some envFile) envExample updates)) =
      onKeys p (assignments envFile) :=
  onKeys_mergeEnv (by decide) (by decide) (readLines_breakFree envFile) ha

theorem onKeys_applyPendingConfig {p : Str → Bool} (content : Str) {config : Dict Str Str}
    (ha : Avoids p (writtenKeys config.items)) :
    onKeys p (assignments (applyPendingConfig content config)) = onKeys p (assignments content) :=
  onKeys_mergeEnv (by decide) (by decide) (readLines_breakFree content) ha

theorem isKey_machineIdKey : IsKey machineIdKey := by decide

theorem parseLine_of_isMachineIdLine {line : Str} (h : isMachineIdLine line = true) :
    ∃ v, parseLine line = some (machineIdKey, v) := by
  obtain ⟨v, hv⟩ := List.isPrefixOf_iff_prefix.mp h
  have hline : line = renderLine (machineIdKey, v) := by rw [← hv]; simp [renderLine]
  exact ⟨strip v, hline ▸ parseLine_render isKey_machineIdKey v⟩

theorem onKeys_persistMachineId {p : Str → Bool} (content machineId : Str)
    (ha : Avoids p (writtenKeys [(machineIdKey, machineId)])) :
    onKeys p (assignments (persistMachineId content machineId)) =
      onKeys p (assignments content) := by
  have hb := readLines_breakFree content
  have hlines : onKeys p ((((readLines content).map fun line =>
      if isMachineIdLine line then renderLine (machineIdKey, machineId) else line).flatMap
        physicalLines).filterMap parseLine) = onKeys p ((readLines content).filterMap parseLine) := by
    refine onKeys_flatMap_congr fun l hl => ?_
    split_ifs with hm
    · obtain ⟨old, hold⟩ := parseLine_of_isMachineIdLine hm
      exact onKeys_replaceLine (hb l hl) hold ha
    · rw [filterMap_physicalLines_of_breakFree (hb l hl)]
  rw [persistMachineId, assignments_unlines]
  split_ifs with hany
  · exact hlines
  · have hnew : onKeys p (written [(machineIdKey, machineId)]) = [] := onKeys_written ha
    rw [List.flatMap_append, List.filterMap_append, onKeys_append, hlines]
    rw [← filterMap_physicalLines_render] at hnew
    simpa [assignments] using hnew

/-- The rewrite can be written and writes no key that `p` selects. -/
def Rewrite.Keeps (p : Str → Bool) : Rewrite → Prop
  | .persistMachineId machineId => Avoids p (writtenKeys [(machineIdKey, machineId)])
  | .applyPendingConfig config => Avoids p (writtenKeys config.items)
  | .unencodable => False

instance (p : Str → Bool) (r : Rewrite) : Decidable (r.Keeps p) :=
  match r with
  | .persistMachineId machineId =>
    inferInstanceAs (Decidable (Avoids p (writtenKeys [(machineIdKey, machineId)])))
  | .applyPendingConfig config => inferInstanceAs (Decidable (Avoids p (writtenKeys config.items)))
  | .unencodable => inferInstanceAs (Decidable False)

theorem onKeys_rewrite {p : Str → Bool} (content : Str) {r : Rewrite} (h : r.Keeps p) :
    onKeys p (assignments (r.apply content)) = onKeys p (assignments content) := by
  cases r with
  | persistMachineId machineId => exact onKeys_persistMachineId content machineId h
  | applyPendingConfig config => exact onKeys_applyPendingConfig content h
  | unencodable => exact h.elim

theorem onKeys_rewrites {p : Str → Bool} (content : Str) {rs : List Rewrite}
    (h : ∀ r ∈ rs, r.Keeps p) :
    onKeys p (assignments (rs.foldl Rewrite.apply content)) = onKeys p (assignments content) := by
  induction rs generalizing content with
  | nil => rfl
  | cons r rs ih =>
    rw [List.foldl_cons, ih _ fun x hx => h x (List.mem_cons_of_mem r hx),
      onKeys_rewrite content (h r (List.mem_cons_self ..))]

theorem get_readEnv_congr {p : Str → Bool} {content content' : Str}
    (h : onKeys p (assignments content) = onKeys p (assignments content')) {k : Str}
    (hk : p k = true) : (readEnv content).get k = (readEnv content').get k := by
  rw [get_readEnv, get_readEnv, ← lastValue_onKeys hk, h, lastValue_onKeys hk]

/-! ### What a merge of well-formed updates leaves -/

/-- An assignment of the file after the merge. -/
def mergeAssignment (updates : Dict Str Str) (kv : Str × Str) : Str × Str :=
  match updates.get kv.1 with
  | none => kv
  | some value => (kv.1, strip value)

def OneLine (updates : Dict Str Str) : Prop := ∀ kv ∈ updates.items, IsKey kv.1 ∧ BreakFree kv.2

theorem filterMap_mergeLine {updates : Dict Str Str} (hu : OneLine updates) {line : Str}
    (hl : BreakFree line) : (physicalLines (mergeLine updates line)).filterMap parseLine =
      ((parseLine line).map (mergeAssignment updates)).toList := by
  cases hp : parseLine line with
  | none =>
    simp [mergeLine, lineKey, hp, filterMap_physicalLines_of_breakFree hl]
  | some kv =>
    obtain ⟨key, old⟩ := kv
    simp only [mergeLine, lineKey_of_parseLine hp, Option.map_some, mergeAssignment]
    cases hget : updates.get key with
    | none => simp only [filterMap_physicalLines_of_breakFree hl, hp]
    | some value =>
      have hv : BreakFree value := (hu _ (Dict.get_eq_some_iff.mp hget)).2
      rw [filterMap_physicalLines_render, written_singleton (parseLine_some hl hp).1 hv]
      rfl

/-- After the merge every assignment stands where it stood with its new value,
and the keys that no line had follow at the end. -/
theorem assignments_mergeEnv {header : Str} (hh : parseLine header = none)
    (hb : BreakFree header) {updates : Dict Str Str} (hu : OneLine updates) {lines : List Str}
    (hl : ∀ l ∈ lines, BreakFree l) :
    assignments (unlines (mergeEnv header updates lines)) =
      (lines.filterMap parseLine).map (mergeAssignment updates) ++
        (remainder updates lines).map fun kv => (kv.1, strip kv.2) := by
  have hlines : ((lines.map (mergeLine updates)).flatMap physicalLines).filterMap parseLine =
      (lines.filterMap parseLine).map (mergeAssignment updates) := by
    clear hh hb
    induction lines with
    | nil => rfl
    | cons l ls ih =>
      rw [List.map_cons, List.flatMap_cons, List.filterMap_append,
        filterMap_mergeLine hu (hl l (List.mem_cons_self ..)),
        ih fun x hx => hl x (List.mem_cons_of_mem l hx)]
      cases hp : parseLine l <;> simp [hp]
  have hhead : (([[], header] : List Str).flatMap physicalLines).filterMap parseLine = [] := by
    simp [physicalLines_of_breakFree hb, physicalLines_of_breakFree breakFree_nil, hh,
      parseLine_nil]
  have hrest : written (remainder updates lines) =
      (remainder updates lines).map fun kv => (kv.1, strip kv.2) :=
    written_of_breakFree fun kv hkv => hu kv (List.mem_filter.mp hkv).1
  rw [assignments_unlines]
  simp only [mergeEnv]
  split
  · rename_i hnil
    rw [hlines, hnil, List.map_nil, List.append_nil]
  · rw [List.append_assoc, List.flatMap_append, List.filterMap_append, hlines,
      List.flatMap_append, List.filterMap_append, hhead, List.nil_append, List.flatMap_map, ← hrest]
    rfl

theorem get_readEnv_mergeEnv {header : Str} (hh : parseLine header = none)
    (hb : BreakFree header) {updates : Dict Str Str} (hu : OneLine updates) {lines : List Str}
    (hl : ∀ l ∈ lines, BreakFree l) {k v : Str} (hkv : updates.get k = some v) :
    (readEnv (unlines (mergeEnv header updates lines))).get k = some (strip v) := by
  rw [get_readEnv, assignments_mergeEnv hh hb hu hl]
  have hmem : (k, v) ∈ updates.items := Dict.get_eq_some_iff.mp hkv
  have hkeys : ∀ kv, (mergeAssignment updates kv).1 = kv.1 := by
    intro kv
    simp only [mergeAssignment]
    split <;> rfl
  apply lastValue_eq_of_forall
  · -- either some line has the key, or it is appended
    by_cases hline : k ∈ lines.filterMap lineKey
    · obtain ⟨l, hlm, hlk⟩ := List.mem_filterMap.mp hline
      obtain ⟨kv, hp, rfl⟩ := Option.map_eq_some_iff.mp hlk
      rw [List.map_append, List.mem_append]
      refine Or.inl (List.mem_map.mpr ⟨mergeAssignment updates kv, ?_, hkeys kv⟩)
      exact List.mem_map_of_mem (List.mem_filterMap.mpr ⟨l, hlm, hp⟩)
    · rw [List.map_append, List.mem_append]
      refine Or.inr (List.mem_map.mpr ⟨(k, strip v), List.mem_map.mpr ⟨(k, v), ?_, rfl⟩, rfl⟩)
      refine List.mem_filter.mpr ⟨hmem, ?_⟩
      have hnot : k ∉ updatedKeys updates lines := fun h => hline (List.mem_filter.mp h).1
      simpa using hnot
  · intro w hw
    rcases List.mem_append.mp hw with h | h
    · obtain ⟨kv, _, he⟩ := List.mem_map.mp h
      have hk : kv.1 = k := by rw [← hkeys kv, he]
      rw [mergeAssignment, hk, hkv] at he
      exact (Prod.mk.inj he).2.symm
    · obtain ⟨kv, hm, he⟩ := List.mem_map.mp h
      obtain ⟨hk, hv⟩ := Prod.mk.inj he
      have hin : (k, kv.2) ∈ updates.items := hk ▸ (List.mem_filter.mp hm).1
      have hsame : some kv.2 = some v := by rw [← hkv, Dict.get_eq_some_iff.mpr hin]
      rw [← hv, Option.some.inj hsame]

theorem get_readEnv_writeEnv (envFile : Str) (envExample : Option Str) {updates : Dict Str Str}
    (hu : OneLine updates) {k v : Str} (hkv : updates.get k = some v) :
    (readEnv (writeEnv (some envFile) envExample updates)).get k = some (strip v) :=
  get_readEnv_mergeEnv (by decide) (by decide) hu (readLines_breakFree envFile) hkv

end HadcdAgent.EnvFile
