import HadcdAgent.Lib.Run
import HadcdAgent.EnvFile
import HadcdAgent.Container.Security

/-!
# The local container policy across config pushes and restarts

The settings `container_mount_allowlist` and `container_require_hardened`
(`agent/config.py`), their export at the top of `Agent.run`, the heartbeat's
handling of `pending_config` and `_do_restart` (`agent/agent.py`), and the two
variables that `hadcd_workloads/container.py` consults in the workers.

What reads the env file at a start (the service manager or the settings library) is
a parameter, and so is the making of the settings from the variables.
-/

namespace HadcdAgent.LocalPolicy

open Lib Lib.PyStr EnvFile Container

/-! ### Settings -/

structure AgentSettings where
  containerMountAllowlist : Str
  containerRequireHardened : Bool

def exportSettings (s : AgentSettings) (environ : Dict Str Str) : Dict Str Str :=
  let environ := if s.containerMountAllowlist ≠ [] then
    environ.set "HADCD_MOUNT_ALLOWLIST" s.containerMountAllowlist else environ
  if s.containerRequireHardened then environ.set "HADCD_REQUIRE_HARDENED" "1" else environ

/-- What the workers consult: the text of `HADCD_MOUNT_ALLOWLIST` and whether
every container task is hardened. -/
structure Policy where
  mountAllowlist : Str
  requireHardened : Bool
  deriving DecidableEq

def policyOf (environ : Dict Str Str) : Policy :=
  ⟨(environ.get "HADCD_MOUNT_ALLOWLIST").getD [], envTrue environ "HADCD_REQUIRE_HARDENED"⟩

/-! ### Reading the env file -/

/-- What reads the file: `reads` are the assignments it makes of a text, in order, and
`whole` says of a line that it is taken by itself, so that no quote, continuation or
reference in it reaches over its end. -/
structure EnvReader where
  reads : Str → List (Str × Str)
  whole : Str → Prop

/-- The text's only line boundary is the newline. -/
def NewlineOnly (t : Str) : Prop := (t.all fun c => !isLineBreak c || c == '\n') = true

def EnvReader.line (rd : EnvReader) (l : Str) : List (Str × Str) := rd.reads (l ++ ['\n'])

/-- A text of which the reader takes every line by itself. -/
structure Plain (rd : EnvReader) (text : Str) : Prop where
  newlineOnly : NewlineOnly text
  whole : ∀ l ∈ splitlines text, rd.whole l

/-- Printable ASCII on one line, no backslash. -/
structure Remark (t : Str) : Prop where
  breakFree : BreakFree t
  printable : (t.all fun c => 0x20 ≤ c.val && c.val ≤ 0x7e && c != '\\') = true

/-- What the formats of the readers promise: a text of whole lines is read line by line,
and a blank line and a comment are whole and assign nothing. -/
structure LineWise (rd : EnvReader) : Prop where
  reads : ∀ text, Plain rd text → rd.reads text = (splitlines text).flatMap rd.line
  blank : rd.whole [] ∧ rd.line [] = []
  comment : ∀ t, Remark t → rd.whole ('#' :: t) ∧ rd.line ('#' :: t) = []

/-! ### The agent over its restarts -/

/-- How the env file reaches the process: exported by the service manager
(`EnvironmentFile=`) or read by the settings (`env_file=".env"`). -/
inductive Deployment where
  | environmentFile
  | dotenv

/-- What the host fixes. `settings` are those of `AgentSettings()` from the environment
and the `.env` file, `none` when it refuses a value. -/
structure Host where
  deployment : Deployment
  reader : EnvReader
  environ : Dict Str Str
  settings : Dict Str Str → Dict Str Str → Option AgentSettings

def freshEnviron (host : Host) (file : Str) : Dict Str Str :=
  match host.deployment with
  | .environmentFile =>
    (host.reader.reads file).foldl (fun d kv => d.set kv.1 kv.2) host.environ
  | .dotenv => host.environ

def dotenvOf (host : Host) (file : Str) : Dict Str Str :=
  match host.deployment with
  | .environmentFile => Dict.empty
  | .dotenv => Dict.ofAssignments (host.reader.reads file)

structure State where
  file : Str
  environ : Dict Str Str
  running : Bool
  pendingConfigApplied : Bool
  restartScheduled : Bool

def start (host : Host) (file : Str) (environ : Dict Str Str) : State :=
  match host.settings environ (dotenvOf host file) with
  | none => ⟨file, environ, false, false, false⟩
  | some s => ⟨file, exportSettings s environ, true, false, false⟩

def boot (host : Host) (file : Str) : State := start host file (freshEnviron host file)

/-- `data.get("pending_config")`: falsy, truthy but no object, an object of
`str(value)`s, or one whose text cannot be encoded. -/
inductive Pending where
  | absent
  | notObject
  | config (d : Dict Str Str)
  | unencodable

/-- `execv` keeps the process environment, the service manager makes a new one. -/
inductive RestartKind where
  | systemctl
  | execv

inductive Input where
  | response (pending : Pending)
  | restart (kind : RestartKind)
  | machineId (machineId : Str)

def confirmPending (s : State) : State :=
  if s.pendingConfigApplied then
    { s with pendingConfigApplied := false, restartScheduled := true }
  else s

/-- The branch of `_heartbeat_loop` on `pending_config`. A text that cannot be
encoded raises in `write_text`, after the file was truncated and before the flag
is set. -/
def handlePending (s : State) : Pending → State
  | .absent => confirmPending s
  | .notObject => s
  | .config d =>
    if d.items = [] then confirmPending s
    else { s with file := applyPendingConfig s.file d, pendingConfigApplied := true }
  | .unencodable => { s with file := Rewrite.unencodable.apply s.file }

/-- One event of the agent's life: a heartbeat response, a restart for whatever
reason, or the discovery of the Vast.AI machine id. -/
def step (host : Host) (s : State) : Input → Option State
  | .response pending => if s.running then some (handlePending s pending) else none
  | .restart .systemctl => some (start host s.file (freshEnviron host s.file))
  | .restart .execv => if s.running then some (start host s.file s.environ) else none
  | .machineId machineId =>
    if s.running then some { s with file := persistMachineId s.file machineId } else none

/-! ### The variables that carry the policy -/

/-- The settings' two fields: variables are matched without case. -/
def isFieldKey (k : Str) : Bool :=
  lower k ∈ (["container_mount_allowlist", "container_require_hardened"] : List Str)

/-- They, and the two variables they are exported under. -/
def isPolicyKey (k : Str) : Bool :=
  isFieldKey k || k ∈ (["HADCD_MOUNT_ALLOWLIST", "HADCD_REQUIRE_HARDENED"] : List Str)

/-- The two fields are made of the variables of their own names. -/
def ByName (settings : Dict Str Str → Dict Str Str → Option AgentSettings) : Prop :=
  ∀ environ environ' dotenv dotenv' s s',
    environ.restrict isFieldKey = environ'.restrict isFieldKey →
    dotenv.restrict isFieldKey = dotenv'.restrict isFieldKey →
    settings environ dotenv = some s → settings environ' dotenv' = some s' → s = s'

structure Host.Lawful (host : Host) : Prop where
  lineWise : LineWise host.reader
  byName : ByName host.settings

/-- What the lines assign to the policy variables. -/
def EnvReader.policy (rd : EnvReader) (ls : List Str) : List (Str × Str) :=
  ls.flatMap fun l => onKeys isPolicyKey (rd.line l)

/-- The texts, written one below the other, are read line by line, and assign `kvs` to
the policy variables. -/
structure Writes (rd : EnvReader) (ls : List Str) (kvs : List (Str × Str)) : Prop where
  newlineOnly : ∀ l ∈ ls, NewlineOnly l
  whole : ∀ l ∈ ls.flatMap physicalLines, rd.whole l
  policy : rd.policy (ls.flatMap physicalLines) = kvs

/-- The pair, written into the file, neither assigns a policy variable nor reaches over
the end of its lines. -/
def Harmless (rd : EnvReader) (kv : Str × Str) : Prop := Writes rd [renderLine kv] []

/-- The input writes harmless pairs, and none of them in the place of a line that assigns
a policy variable. What cannot be encoded comes only while the file has no policy
variable to lose. -/
def LeavesPolicy (rd : EnvReader) (s : State) : Input → Prop
  | .response (.config d) => (∀ kv ∈ d.items, Harmless rd kv) ∧
    ∀ l ∈ readLines s.file, ∀ k ∈ d.keys, lineKey l = some k → rd.policy [l] = []
  | .response .unencodable => onKeys isPolicyKey (rd.reads s.file) = []
  | .machineId machineId => Harmless rd (machineIdKey, machineId) ∧
    ∀ l ∈ readLines s.file, isMachineIdLine l = true → rd.policy [l] = []
  | _ => True

/-! ### Line-wise rewrites -/

section Rewrites

variable {rd : EnvReader} {ls ls' : List Str} {kvs kvs' : List (Str × Str)}

theorem policy_append (rd : EnvReader) (ls ls' : List Str) :
    rd.policy (ls ++ ls') = rd.policy ls ++ rd.policy ls' := List.flatMap_append

theorem policy_cons (rd : EnvReader) (l : Str) (ls : List Str) :
    rd.policy (l :: ls) = rd.policy [l] ++ rd.policy ls := policy_append rd [l] ls

theorem Writes.append (h : Writes rd ls kvs) (h' : Writes rd ls' kvs') :
    Writes rd (ls ++ ls') (kvs ++ kvs') where
  newlineOnly l hl := (List.mem_append.mp hl).elim (h.newlineOnly l) (h'.newlineOnly l)
  whole l hl := by
    rw [List.flatMap_append] at hl
    exact (List.mem_append.mp hl).elim (h.whole l) (h'.whole l)
  policy := by rw [List.flatMap_append, policy_append, h.policy, h'.policy]

theorem Writes.nil : Writes rd [] [] where
  newlineOnly _ hl := absurd hl List.not_mem_nil
  whole _ hl := absurd hl List.not_mem_nil
  policy := rfl

theorem newlineOnly_of_breakFree {l : Str} (h : BreakFree l) : NewlineOnly l := by
  refine List.all_eq_true.mpr fun c hc => ?_
  rw [h c hc]
  rfl

theorem writes_line {l : Str} (hb : BreakFree l) (hw : rd.whole l) :
    Writes rd [l] (rd.policy [l]) := by
  have hlines : ([l] : List Str).flatMap physicalLines = [l] :=
    flatMap_physicalLines fun m hm => List.mem_singleton.mp hm ▸ hb
  refine ⟨fun m hm => ?_, fun m hm => ?_, ?_⟩
  · rw [List.mem_singleton.mp hm]
    exact newlineOnly_of_breakFree hb
  · rw [hlines] at hm
    rw [List.mem_singleton.mp hm]
    exact hw
  · rw [hlines]

/-- A rewrite of each line that keeps what it assigns to the policy variables. -/
theorem writes_map {f : Str → Str} (h : ∀ l ∈ ls, Writes rd [f l] (rd.policy [l])) :
    Writes rd (ls.map f) (rd.policy ls) := by
  induction ls with
  | nil => exact Writes.nil
  | cons l ls ih =>
    rw [policy_cons]
    exact (h l (List.mem_cons_self ..)).append (ih fun m hm => h m (List.mem_cons_of_mem l hm))

theorem writes_renders (h : ∀ kv ∈ kvs, Harmless rd kv) :
    Writes rd (kvs.map renderLine) [] := by
  induction kvs with
  | nil => exact Writes.nil
  | cons kv kvs ih =>
    exact (h kv (List.mem_cons_self ..)).append (ih fun m hm => h m (List.mem_cons_of_mem kv hm))

theorem newlineOnly_append {t u : Str} (ht : NewlineOnly t) (hu : NewlineOnly u) :
    NewlineOnly (t ++ u) := by
  rw [NewlineOnly, List.all_append, Bool.and_eq_true]
  exact ⟨ht, hu⟩

theorem newlineOnly_unlines (h : ∀ l ∈ ls, NewlineOnly l) : NewlineOnly (unlines ls) := by
  have hnl : NewlineOnly ['\n'] := rfl
  refine newlineOnly_append ?_ hnl
  induction ls with
  | nil => rfl
  | cons l ls ih =>
    have hl := h l (List.mem_cons_self ..)
    have hls := ih fun m hm => h m (List.mem_cons_of_mem l hm)
    cases ls with
    | nil => simpa [List.intercalate] using hl
    | cons m ls =>
      have hcons : List.intercalate ['\n'] (l :: m :: ls) =
          l ++ (['\n'] ++ List.intercalate ['\n'] (m :: ls)) := by simp [List.intercalate]
      rw [hcons]
      exact newlineOnly_append hl (newlineOnly_append hnl hls)

theorem onKeys_reads (hrd : LineWise rd) {text : Str} (h : Plain rd text) :
    onKeys isPolicyKey (rd.reads text) = rd.policy (splitlines text) := by
  rw [hrd.reads text h, EnvReader.policy]
  exact List.filter_flatMap

theorem policy_blank (hrd : LineWise rd) : rd.policy [[]] = [] := by
  rw [EnvReader.policy, List.flatMap_singleton, hrd.blank.2]
  rfl

/-- The file written with the lines, and what it assigns. -/
theorem Writes.file (hrd : LineWise rd) (h : Writes rd ls kvs) :
    Plain rd (unlines ls) ∧ onKeys isPolicyKey (rd.reads (unlines ls)) = kvs := by
  have hlines : (∀ l ∈ splitlines (unlines ls), rd.whole l) ∧
      rd.policy (splitlines (unlines ls)) = kvs := by
    by_cases hnil : ls = []
    · subst hnil
      rw [splitlines_unlines_nil, policy_blank hrd, ← h.policy]
      refine ⟨fun l hl => ?_, rfl⟩
      rw [List.mem_singleton.mp hl]
      exact hrd.blank.1
    · rw [splitlines_unlines hnil]
      exact ⟨h.whole, h.policy⟩
  have hplain : Plain rd (unlines ls) := ⟨newlineOnly_unlines h.newlineOnly, hlines.1⟩
  exact ⟨hplain, (onKeys_reads hrd hplain).trans hlines.2⟩

theorem readLines_eq (text : Str) : readLines text = splitlines text :=
  splitlines_universalNewlines text

theorem writes_header (hrd : LineWise rd) {t : Str} (ht : Remark t) :
    Writes rd [[], '#' :: t] [] := by
  obtain ⟨hwhole, hline⟩ := hrd.comment t ht
  have hpolicy : rd.policy ['#' :: t] = [] := by
    rw [EnvReader.policy, List.flatMap_singleton, hline]
    rfl
  have hhead : Writes rd ['#' :: t] (rd.policy ['#' :: t]) :=
    writes_line (breakFree_cons.mpr ⟨by decide, ht.breakFree⟩) hwhole
  have hblank : Writes rd [[]] (rd.policy [[]]) := writes_line breakFree_nil hrd.blank.1
  rw [hpolicy] at hhead
  rw [policy_blank hrd] at hblank
  exact hblank.append hhead

theorem writes_mergeLine {lines : List Str} (hw : ∀ l ∈ lines, BreakFree l ∧ rd.whole l)
    {d : Dict Str Str} (hd : ∀ kv ∈ d.items, Harmless rd kv)
    (hlines : ∀ l ∈ lines, ∀ k ∈ d.keys, lineKey l = some k → rd.policy [l] = []) :
    Writes rd (lines.map (mergeLine d)) (rd.policy lines) := by
  refine writes_map fun l hl => ?_
  obtain ⟨hb, hwhole⟩ := hw l hl
  have hkeep := writes_line hb hwhole
  rw [mergeLine]
  split
  case h_1 => exact hkeep
  case h_2 key hkey =>
    split
    case h_1 => exact hkeep
    case h_2 value hget =>
      rw [hlines l hl key (Dict.mem_keys_iff.mpr ⟨value, hget⟩) hkey]
      exact hd (key, value) (Dict.get_eq_some_iff.mp hget)

theorem writes_mergeEnv (hrd : LineWise rd) {t : Str} (ht : Remark t)
    {lines : List Str} (hw : ∀ l ∈ lines, BreakFree l ∧ rd.whole l) {d : Dict Str Str}
    (hd : ∀ kv ∈ d.items, Harmless rd kv)
    (hlines : ∀ l ∈ lines, ∀ k ∈ d.keys, lineKey l = some k → rd.policy [l] = []) :
    Writes rd (mergeEnv ('#' :: t) d lines) (rd.policy lines) := by
  have hmerged := writes_mergeLine hw hd hlines
  simp only [mergeEnv]
  split
  · exact hmerged
  · have hrest : Writes rd ((remainder d lines).map renderLine) [] :=
      writes_renders fun kv hkv => hd kv (List.mem_filter.mp hkv).1
    have hall := (hmerged.append (writes_header hrd ht)).append hrest
    rw [List.append_nil, List.append_nil] at hall
    exact hall

end Rewrites

/-! ### What the responses leave of the file -/

section Files

variable {rd : EnvReader}

theorem readLines_of_plain {text : Str} (h : Plain rd text) :
    ∀ l ∈ readLines text, BreakFree l ∧ rd.whole l := by
  rw [readLines_eq]
  exact fun l hl => ⟨splitlines_breakFree text l hl, h.whole l hl⟩

/-- The file is one of whole lines, and assigns `kvs` to the policy variables. -/
def Holds (rd : EnvReader) (kvs : List (Str × Str)) (file : Str) : Prop :=
  Plain rd file ∧ onKeys isPolicyKey (rd.reads file) = kvs

theorem holds_of_writes (hrd : LineWise rd) {kvs : List (Str × Str)} {file : Str} {ls : List Str}
    (h : Holds rd kvs file) (hls : Writes rd ls (rd.policy (readLines file))) :
    Holds rd kvs (unlines ls) := by
  rw [readLines_eq, ← onKeys_reads hrd h.1, h.2] at hls
  exact hls.file hrd

theorem holds_applyPendingConfig (hrd : LineWise rd) {kvs : List (Str × Str)} {file : Str}
    (h : Holds rd kvs file) {d : Dict Str Str} (hd : ∀ kv ∈ d.items, Harmless rd kv)
    (hlines : ∀ l ∈ readLines file, ∀ k ∈ d.keys, lineKey l = some k → rd.policy [l] = []) :
    Holds rd kvs (applyPendingConfig file d) :=
  holds_of_writes hrd h
    (writes_mergeEnv hrd ⟨by decide, by decide⟩ (readLines_of_plain h.1) hd hlines)

theorem holds_persistMachineId (hrd : LineWise rd) {kvs : List (Str × Str)} {file : Str}
    (h : Holds rd kvs file) {machineId : Str} (hd : Harmless rd (machineIdKey, machineId))
    (hlines : ∀ l ∈ readLines file, isMachineIdLine l = true → rd.policy [l] = []) :
    Holds rd kvs (persistMachineId file machineId) := by
  have hw := readLines_of_plain h.1
  have hmapped : Writes rd ((readLines file).map fun line =>
      if isMachineIdLine line then renderLine (machineIdKey, machineId) else line)
      (rd.policy (readLines file)) := by
    refine writes_map fun l hl => ?_
    split_ifs with hm
    · rw [hlines l hl hm]
      exact hd
    · exact writes_line (hw l hl).1 (hw l hl).2
  refine holds_of_writes hrd h ?_
  split_ifs with hany
  · exact hmapped
  · have hall := hmapped.append hd
    rw [List.append_nil] at hall
    exact hall

theorem holds_nil (hrd : LineWise rd) : Holds rd [] [] := by
  have hplain : Plain rd [] := ⟨rfl, fun l hl => absurd hl List.not_mem_nil⟩
  exact ⟨hplain, onKeys_reads hrd hplain⟩

theorem holds_handlePending (hrd : LineWise rd) {kvs : List (Str × Str)} {s : State}
    {pending : Pending} (h : Holds rd kvs s.file) (hi : LeavesPolicy rd s (.response pending)) :
    Holds rd kvs (handlePending s pending).file := by
  have hconfirm : (confirmPending s).file = s.file := by
    rw [confirmPending]
    split_ifs <;> rfl
  cases pending with
  | absent =>
    rw [handlePending, hconfirm]
    exact h
  | notObject => exact h
  | config d =>
    rw [handlePending]
    split_ifs
    · rw [hconfirm]
      exact h
    · exact holds_applyPendingConfig hrd h hi.1 hi.2
  | unencodable =>
    obtain rfl : kvs = [] := h.2.symm.trans hi
    exact holds_nil hrd

end Files

theorem environ_handlePending (s : State) (pending : Pending) :
    (handlePending s pending).environ = s.environ ∧
      (handlePending s pending).running = s.running := by
  have hconfirm : (confirmPending s).environ = s.environ ∧
      (confirmPending s).running = s.running := by
    rw [confirmPending]
    split_ifs <;> exact ⟨rfl, rfl⟩
  cases pending with
  | absent => exact hconfirm
  | notObject => exact ⟨rfl, rfl⟩
  | config d =>
    rw [handlePending]
    split_ifs
    · exact hconfirm
    · exact ⟨rfl, rfl⟩
  | unencodable => exact ⟨rfl, rfl⟩

/-! ### The policy depends on these variables only -/

theorem restrict_isFieldKey {d d' : Dict Str Str}
    (h : d.restrict isPolicyKey = d'.restrict isPolicyKey) :
    d.restrict isFieldKey = d'.restrict isFieldKey := by
  have hsub : ∀ e : Dict Str Str, (e.restrict isPolicyKey).restrict isFieldKey =
      e.restrict isFieldKey := by
    intro e
    refine Dict.ext ?_
    simp only [Dict.restrict, List.filter_filter]
    refine List.filter_congr fun kv _ => ?_
    rw [isPolicyKey]
    cases isFieldKey kv.1 <;> rfl
  rw [← hsub d, h, hsub]

theorem restrict_exportSettings (s : AgentSettings) (environ : Dict Str Str) :
    (exportSettings s environ).restrict isPolicyKey =
      exportSettings s (environ.restrict isPolicyKey) := by
  have h1 : isPolicyKey "HADCD_MOUNT_ALLOWLIST" = true := by decide
  have h2 : isPolicyKey "HADCD_REQUIRE_HARDENED" = true := by decide
  simp only [exportSettings]
  split_ifs <;> simp only [Dict.restrict_set, h1, h2, if_true]

theorem policyOf_restrict (environ : Dict Str Str) :
    policyOf (environ.restrict isPolicyKey) = policyOf environ := by
  rw [policyOf, policyOf, envTrue, envTrue, Dict.get_restrict (by decide),
    Dict.get_restrict (by decide)]

theorem restrict_freshEnviron {host : Host} {file file' : Str}
    (h : onKeys isPolicyKey (host.reader.reads file) =
      onKeys isPolicyKey (host.reader.reads file')) :
    (freshEnviron host file).restrict isPolicyKey =
      (freshEnviron host file').restrict isPolicyKey := by
  rw [freshEnviron, freshEnviron]
  cases host.deployment with
  | environmentFile =>
    simp only [Dict.restrict_foldl_set]
    rw [onKeys] at h
    rw [h, onKeys]
  | dotenv => rfl

theorem restrict_dotenvOf {host : Host} {file file' : Str}
    (h : onKeys isPolicyKey (host.reader.reads file) =
      onKeys isPolicyKey (host.reader.reads file')) :
    (dotenvOf host file).restrict isPolicyKey = (dotenvOf host file').restrict isPolicyKey := by
  rw [dotenvOf, dotenvOf]
  cases host.deployment with
  | environmentFile => rfl
  | dotenv =>
    simp only [Dict.ofAssignments, Dict.restrict_foldl_set]
    rw [onKeys] at h
    rw [h, onKeys]

/-! ### A restart on an unchanged file -/

/-- The exported variables are no settings. -/
theorem restrict_isFieldKey_exportSettings (s : AgentSettings) (environ : Dict Str Str) :
    (exportSettings s environ).restrict isFieldKey = environ.restrict isFieldKey := by
  have h1 : isFieldKey "HADCD_MOUNT_ALLOWLIST" = false := by decide
  have h2 : isFieldKey "HADCD_REQUIRE_HARDENED" = false := by decide
  simp only [exportSettings]
  split_ifs <;> simp only [Dict.restrict_set, h1, h2, Bool.false_eq_true, if_false]

theorem exportSettings_exportSettings (s : AgentSettings) (environ : Dict Str Str) :
    exportSettings s (exportSettings s environ) = exportSettings s environ := by
  have hne : ("HADCD_REQUIRE_HARDENED" : Str) ≠ "HADCD_MOUNT_ALLOWLIST" := by decide
  simp only [exportSettings]
  split_ifs
  · have hallow : ((environ.set "HADCD_MOUNT_ALLOWLIST" s.containerMountAllowlist).set
        "HADCD_REQUIRE_HARDENED" "1").get "HADCD_MOUNT_ALLOWLIST" =
        some s.containerMountAllowlist := by
      rw [Dict.get_set, if_neg hne, Dict.get_set, if_pos rfl]
    rw [Dict.set_eq_self hallow, Dict.set_eq_self (by rw [Dict.get_set, if_pos rfl])]
  · rw [Dict.set_eq_self (by rw [Dict.get_set, if_pos rfl])]
  · rw [Dict.set_eq_self (by rw [Dict.get_set, if_pos rfl])]
  · rfl

theorem start_file (host : Host) (file : Str) (environ : Dict Str Str) :
    (start host file environ).file = file := by
  rw [start]
  split <;> rfl

theorem start_running {host : Host} {file : Str} {environ : Dict Str Str}
    (h : (start host file environ).running = true) :
    ∃ s, host.settings environ (dotenvOf host file) = some s ∧
      (start host file environ).environ = exportSettings s environ := by
  rw [start] at h ⊢
  split at h
  case h_1 => cases h
  case h_2 s hs => exact ⟨s, hs, rfl⟩

/-! ### The invariant -/

/-- The settings are made of the policy variables that a fresh start on the file has. -/
def LoadedFrom (host : Host) (file : Str) (st : AgentSettings) : Prop :=
  ∃ environ dotenv, host.settings environ dotenv = some st ∧
    environ.restrict isFieldKey = (freshEnviron host file).restrict isFieldKey ∧
    dotenv.restrict isFieldKey = (dotenvOf host file).restrict isFieldKey

theorem LoadedFrom.unique {host : Host} (hhost : host.Lawful) {file : Str} {st st' : AgentSettings}
    (h : LoadedFrom host file st) (h' : LoadedFrom host file st') : st = st' := by
  obtain ⟨environ, dotenv, hst, henviron, hdotenv⟩ := h
  obtain ⟨environ', dotenv', hst', henviron', hdotenv'⟩ := h'
  exact hhost.byName environ environ' dotenv dotenv' st st' (henviron.trans henviron'.symm)
    (hdotenv.trans hdotenv'.symm) hst hst'

/-- The file has the policy variables it was written with, and a running process
has exported the settings that a fresh start on that file loads. -/
structure Local (host : Host) (file : Str) (s : State) : Prop where
  holds : Holds host.reader (onKeys isPolicyKey (host.reader.reads file)) s.file
  exported : s.running = true → ∃ st, LoadedFrom host file st ∧
    s.environ.restrict isPolicyKey =
      exportSettings st ((freshEnviron host file).restrict isPolicyKey)

theorem local_fresh {host : Host} {file file' : Str}
    (h : Holds host.reader (onKeys isPolicyKey (host.reader.reads file)) file') :
    Local host file (start host file' (freshEnviron host file')) := by
  refine ⟨by rw [start_file]; exact h, fun hrun => ?_⟩
  obtain ⟨st, hload, henv⟩ := start_running hrun
  have hfresh := restrict_freshEnviron h.2
  refine ⟨st, ⟨_, _, hload, restrict_isFieldKey hfresh,
    restrict_isFieldKey (restrict_dotenvOf h.2)⟩, ?_⟩
  rw [henv, restrict_exportSettings, hfresh]

theorem local_execv {host : Host} (hhost : host.Lawful) {file : Str} {s : State}
    (hs : Local host file s) (hrun : s.running = true) :
    Local host file (start host s.file s.environ) := by
  obtain ⟨st, hload, henv⟩ := hs.exported hrun
  refine ⟨by rw [start_file]; exact hs.holds, fun hrun' => ?_⟩
  obtain ⟨st', hload', henv'⟩ := start_running hrun'
  -- the exported variables are no settings, so the same settings are loaded again
  have hexported : (exportSettings st (freshEnviron host file)).restrict isPolicyKey =
      s.environ.restrict isPolicyKey := by rw [restrict_exportSettings, henv]
  have hfrom : LoadedFrom host file st' := by
    refine ⟨_, _, hload', ?_, restrict_isFieldKey (restrict_dotenvOf hs.holds.2)⟩
    rw [← restrict_isFieldKey hexported, restrict_isFieldKey_exportSettings]
  cases hfrom.unique hhost hload
  refine ⟨st, hload, ?_⟩
  rw [henv', restrict_exportSettings, henv, exportSettings_exportSettings]

theorem local_step {host : Host} (hhost : host.Lawful) {file : Str} (s : State) (i : Input)
    (t : State) (hs : Local host file s) (hi : LeavesPolicy host.reader s i)
    (ht : step host s i = some t) : Local host file t := by
  cases i with
  | response pending =>
    simp only [step, Option.ite_none_right_eq_some, Option.some.injEq] at ht
    obtain ⟨hrun, rfl⟩ := ht
    obtain ⟨henv, hrun'⟩ := environ_handlePending s pending
    refine ⟨holds_handlePending hhost.lineWise hs.holds hi, fun _ => ?_⟩
    rw [henv]
    exact hs.exported hrun
  | restart kind =>
    cases kind with
    | systemctl =>
      cases Option.some.inj ht
      exact local_fresh hs.holds
    | execv =>
      simp only [step, Option.ite_none_right_eq_some, Option.some.injEq] at ht
      obtain ⟨hrun, rfl⟩ := ht
      exact local_execv hhost hs hrun
  | machineId machineId =>
    simp only [step, Option.ite_none_right_eq_some, Option.some.injEq] at ht
    obtain ⟨hrun, rfl⟩ := ht
    exact ⟨holds_persistMachineId hhost.lineWise hs.holds hi.1 hi.2, hs.exported⟩

theorem policyOf_of_local {host : Host} (hhost : host.Lawful) {file : Str} {s t : State}
    (hs : Local host file s) (ht : Local host file t) (hrs : s.running = true)
    (hrt : t.running = true) : policyOf s.environ = policyOf t.environ := by
  obtain ⟨st, hload, henv⟩ := hs.exported hrs
  obtain ⟨st', hload', henv'⟩ := ht.exported hrt
  cases hload.unique hhost hload'
  rw [← policyOf_restrict, henv, ← henv', policyOf_restrict]

/-- Two runs from one host-written file of whole lines, with any responses and restarts
that leave the policy variables alone, have the same policy whenever both are up. -/
theorem policyOf_eq_of_leavesPolicy {host : Host} (hhost : host.Lawful) {file : Str}
    (hfile : Plain host.reader file) {is js : List Input} {s t : State}
    (hi : Run.Along (step host) (LeavesPolicy host.reader) (boot host file) is)
    (hj : Run.Along (step host) (LeavesPolicy host.reader) (boot host file) js)
    (hs : Run.exec (step host) (boot host file) is = some s)
    (ht : Run.exec (step host) (boot host file) js = some t)
    (hrs : s.running = true) (hrt : t.running = true) :
    policyOf s.environ = policyOf t.environ := by
  have hboot : Local host file (boot host file) := local_fresh ⟨hfile, rfl⟩
  exact policyOf_of_local hhost (Run.exec_invariant (local_step hhost) hboot hi hs)
    (Run.exec_invariant (local_step hhost) hboot hj ht) hrs hrt

/-! ### A service with a file of plain lines -/

/-- Reads a file whose values need no quotes. -/
def plainReader : EnvReader where
  reads := assignments
  whole l := l.head? = some '#' ∨
    (l.all fun c => c ∉ (['\'', '"', '\\', '$', '#', ' ', '\t'] : List Char)) = true

theorem lineWise_plainReader : LineWise plainReader where
  reads text _ := by
    have hline : ∀ l ∈ splitlines text, plainReader.line l = (parseLine l).toList := by
      intro l hl
      have hlines : splitlines (l ++ ['\n']) = [l] :=
        physicalLines_of_breakFree (splitlines_breakFree text l hl)
      change assignments (l ++ ['\n']) = _
      rw [assignments, readLines_eq, hlines]
      cases h : parseLine l <;> simp [h]
    change assignments text = _
    rw [assignments, readLines_eq, List.flatMap_congr hline, List.filterMap_eq_flatMap_toList]
  blank := ⟨Or.inr rfl, by decide⟩
  comment t ht := by
    refine ⟨Or.inl rfl, ?_⟩
    have hlines : splitlines (('#' :: t) ++ ['\n']) = ['#' :: t] :=
      physicalLines_of_breakFree (breakFree_cons.mpr ⟨by decide, ht.breakFree⟩)
    have hcomment : parseLine ('#' :: t) = none := by
      have hhead : (strip ('#' :: t)).head? = some '#' := by
        rw [strip, show lstrip ('#' :: t) = [] ++ '#' :: t from rfl,
          rdropWhile_append_cons (by decide)]
        rfl
      rw [parseLine, if_pos (Or.inr hhead)]
    change assignments (('#' :: t) ++ ['\n']) = []
    rw [assignments, readLines_eq, hlines, List.filterMap_cons, hcomment, List.filterMap_nil]

/-- The two fields, for the spellings `true` and `false`. -/
def plainSettings (environ _dotenv : Dict Str Str) : Option AgentSettings :=
  let allowlist := (environ.get "CONTAINER_MOUNT_ALLOWLIST").getD []
  match environ.get "CONTAINER_REQUIRE_HARDENED" with
  | none => some ⟨allowlist, false⟩
  | some v =>
    if v = "true" then some ⟨allowlist, true⟩
    else if v = "false" then some ⟨allowlist, false⟩
    else none

theorem byName_plainSettings : ByName plainSettings := by
  intro environ environ' dotenv dotenv' s s' henviron _ hs hs'
  have hget : ∀ k, isFieldKey k = true → environ.get k = environ'.get k := by
    intro k hk
    rw [← Dict.get_restrict hk, henviron, Dict.get_restrict hk]
  rw [plainSettings, hget _ (by decide), hget _ (by decide)] at hs
  exact Option.some.inj (hs.symm.trans hs')

def serviceHost : Host := ⟨.environmentFile, plainReader, Dict.empty, plainSettings⟩

def hardenedFile : Str :=
  "CONTAINER_MOUNT_ALLOWLIST=/srv/data\nCONTAINER_REQUIRE_HARDENED=true\n"

def pushRun (config : Dict Str Str) : List Input :=
  [.response (.config config), .response .absent, .restart .systemctl]

def quietRun : List Input := [.response .absent, .response .absent, .restart .systemctl]

theorem plain_hardenedFile : Plain plainReader hardenedFile where
  newlineOnly := by unfold NewlineOnly; decide
  whole := by
    have hall : ∀ l ∈ splitlines hardenedFile, (l.all fun c =>
        c ∉ (['\'', '"', '\\', '$', '#', ' ', '\t'] : List Char)) = true := by decide
    exact fun l hl => Or.inr (hall l hl)

theorem policyOf_eq_push_nodeName : ∃ s t,
    Run.exec (step serviceHost) (boot serviceHost hardenedFile)
      (pushRun (Dict.empty.set "NODE_NAME" "Hall")) = some s ∧
    Run.exec (step serviceHost) (boot serviceHost hardenedFile) quietRun = some t ∧
    policyOf s.environ = policyOf t.environ := by
  have hline : Harmless plainReader ("NODE_NAME", "Hall") := by
    have hpolicy : plainReader.policy [renderLine ("NODE_NAME", "Hall")] = [] := by decide
    have h : Writes plainReader [renderLine ("NODE_NAME", "Hall")]
        (plainReader.policy [renderLine ("NODE_NAME", "Hall")]) :=
      writes_line (by decide) (Or.inr (by decide))
    rwa [hpolicy] at h
  have hkeys : ∀ l ∈ readLines hardenedFile, ∀ k ∈ (["NODE_NAME"] : List Str),
      lineKey l = some k → plainReader.policy [l] = [] := by decide
  have hpush : Run.Along (step serviceHost) (LeavesPolicy plainReader)
      (boot serviceHost hardenedFile) (pushRun (Dict.empty.set "NODE_NAME" "Hall")) :=
    ⟨⟨fun kv hkv => List.mem_singleton.mp hkv ▸ hline, hkeys⟩,
      fun _ _ => ⟨trivial, fun _ _ => ⟨trivial, fun _ _ => trivial⟩⟩⟩
  have hquiet : Run.Along (step serviceHost) (LeavesPolicy plainReader)
      (boot serviceHost hardenedFile) quietRun :=
    ⟨trivial, fun _ _ => ⟨trivial, fun _ _ => ⟨trivial, fun _ _ => trivial⟩⟩⟩
  exact ⟨_, _, rfl, rfl, policyOf_eq_of_leavesPolicy ⟨lineWise_plainReader, byName_plainSettings⟩
    plain_hardenedFile hpush hquiet rfl rfl rfl rfl⟩

def wideningPush : Dict Str Str :=
  Dict.ofAssignments [("CONTAINER_MOUNT_ALLOWLIST", "/"), ("CONTAINER_REQUIRE_HARDENED", "false")]

/-- A push that names the two settings widens the one and switches the other off. -/
theorem policyOf_ne_push_policy : ∃ s t,
    Run.exec (step serviceHost) (boot serviceHost hardenedFile)
      (pushRun wideningPush) = some s ∧
    Run.exec (step serviceHost) (boot serviceHost hardenedFile) quietRun = some t ∧
    s.running = true ∧ t.running = true ∧
    policyOf s.environ = ⟨"/", false⟩ ∧ policyOf t.environ = ⟨"/srv/data", true⟩ :=
  ⟨_, _, rfl, rfl, rfl, rfl, by decide, by decide⟩

end HadcdAgent.LocalPolicy
