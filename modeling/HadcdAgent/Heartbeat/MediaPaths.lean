import HadcdAgent.Heartbeat.MediaSync
import HadcdAgent.Lib.Resolve
import HadcdAgent.Lib.Run

/-!
# Where the model sync writes

The files that a task of `Agent._sync_media_models` (`agent/agent.py`) creates, replaces
or deletes, against the models root. Nothing at these paths is a symbolic link.
-/

namespace HadcdAgent.Heartbeat

open Lib Lib.PyStr

/-! ### The files of a step -/

/-- A step of the task; the others on the host leave the disk as they like between two. -/
def taskStep (env : MediaEnv) (t : Sync) (i : ModelDisk × SyncEvent) : Option Sync :=
  (syncStep env i.1 t i.2).map Prod.fst

/-- The files that a step creates, replaces or deletes, tried ones included. -/
def reaches (t : Sync) (e : SyncEvent) : List Str :=
  match t.phase, e with
  | .requesting file, .opened => [part file.dest]
  | .requesting file, .failed _ => [part file.dest]
  | .writing file _, .failed _ => [part file.dest]
  | .closed file _, .failed _ => [part file.dest]
  | .closed file _, .replaced => [part file.dest, file.dest]
  | _, _ => []

/-- `root.resolve()`. -/
def resolvedRoot (env : MediaEnv) (t : Sync) : Str := env.realpath (PurePath.ofStr t.root).str

def WritesBeneath (env : MediaEnv) (t : Sync) (i : ModelDisk × SyncEvent) : Prop :=
  ∃ base : AbsPath, resolvedRoot env t = base.str ∧ ∀ p ∈ reaches t i.2, base.BeneathStr p

/-- No spec asks for the models root itself, unless something is there already. -/
def SparesRoot (env : MediaEnv) (t : Sync) (i : ModelDisk × SyncEvent) : Prop :=
  match t.phase, t.todo, i.2 with
  | .between, spec :: _, .next found =>
    ∀ file, wanted env t.root spec = some file → file.dest = resolvedRoot env t →
      alreadyPresent i.1 file.dest found = true
  | _, _, _ => True

section Task

variable {env : MediaEnv} {disk : ModelDisk} {t : Sync} {e : SyncEvent} {r : Sync × ModelDisk}

theorem names_dropPart {file : MediaFile} {p : Str} (h : p ≠ part file.dest) (unlinked : Bool) :
    (dropPart disk file unlinked).names p = disk.names p := by
  rw [dropPart]
  split_ifs
  · exact Disk.names_unlink_of_ne h
  · rfl

theorem names_replacePart {file : MediaFile} {p : Str} (hpart : p ≠ part file.dest)
    (hdest : p ≠ file.dest) : (replacePart disk file).names p = disk.names p := by
  rw [replacePart]
  split
  · exact Disk.names_rename_of_ne hpart hdest
  · rfl

theorem part_mem_reaches {file : MediaFile} {unlinked : Bool} (h : t.current = some file) :
    part file.dest ∈ reaches t (.failed unlinked) := by
  unfold Sync.current at h
  unfold reaches
  split at h
  case h_1 => cases h
  case h_2 hphase | h_3 hphase | h_4 hphase =>
    cases h
    rw [hphase]
    exact List.mem_singleton_self _

theorem names_leave (t : Sync) (disk : ModelDisk) : (t.leave disk).names = disk.names := by
  rw [Sync.leave]
  split
  · exact BufferedFile.names_emit ..
  · rfl

/-- What a step does not reach keeps its file, and stays absent when it is. -/
theorem names_of_not_mem_reaches (h : syncStep env disk t e = some r) {p : Str}
    (hp : p ∉ reaches t e) : r.2.names p = disk.names p := by
  cases SyncStep.of_eq h with
  | next => rfl
  | opened hphase =>
    unfold reaches at hp
    rw [hphase] at hp
    exact Disk.names_create_of_ne (List.mem_singleton.not.mp hp)
  | chunk => rw [BufferedFile.names_emit]
  | ended => rw [BufferedFile.names_emit]
  | replaced hphase =>
    unfold reaches at hp
    rw [hphase, List.mem_pair, not_or] at hp
    exact names_replacePart hp.1 hp.2
  | failed hcurrent =>
    rw [← names_leave t disk]
    refine names_dropPart ?_ _
    rintro rfl
    exact hp (part_mem_reaches hcurrent)
  | dies => rw [names_leave]

/-- A task comes by a file only when it looks at the spec. -/
theorem current_of_syncStep (h : syncStep env disk t e = some r) :
    r.1.root = t.root ∧ ∀ file, r.1.current = some file → t.current = some file ∨
      ∃ spec todo found, t.phase = .between ∧ t.todo = spec :: todo ∧ e = .next found ∧
        wanted env t.root spec = some file ∧ alreadyPresent disk file.dest found = false := by
  cases SyncStep.of_eq h with
  | @next spec todo found hphase htodo =>
    rw [look]
    cases hwanted : wanted env t.root spec with
    | none => exact ⟨rfl, fun file hfile => Or.inl hfile⟩
    | some file =>
      dsimp only
      split_ifs with hpresent
      · exact ⟨rfl, fun file' hfile => Or.inl hfile⟩
      · refine ⟨rfl, fun file' hfile => Or.inr ?_⟩
        cases hfile
        exact ⟨spec, todo, found, hphase, htodo, rfl, hwanted,
          Bool.eq_false_of_not_eq_true hpresent⟩
  | opened hphase | chunk hphase | ended hphase =>
    refine ⟨rfl, fun file hfile => Or.inl ?_⟩
    rw [Sync.current, hphase]
    exact hfile
  | replaced | failed | dies => exact ⟨rfl, fun file hfile => by cases hfile⟩

theorem mem_reaches {p : Str} (h : p ∈ reaches t e) :
    ∃ file, t.current = some file ∧ (p = part file.dest ∨ p = file.dest) := by
  unfold reaches at h
  split at h
  case h_6 => cases h
  case h_5 file f hphase =>
    refine ⟨file, by rw [Sync.current, hphase], ?_⟩
    exact List.mem_pair.mp h
  case h_1 file hphase | h_2 file unlinked hphase | h_3 file f unlinked hphase |
      h_4 file f unlinked hphase =>
    exact ⟨file, by rw [Sync.current, hphase], Or.inl (List.mem_singleton.mp h)⟩

end Task

/-! ### Beneath the root -/

theorem part_beneath {base : AbsPath} {dest : Str} (h : base.BeneathStr dest) :
    base.BeneathStr (part dest) := h.append (by decide) ⟨'p', by decide, by decide⟩

/-- The text of the root is that of `base`, and the file at work lies strictly beneath. -/
structure Beneath (env : MediaEnv) (base : AbsPath) (t : Sync) : Prop where
  root : resolvedRoot env t = base.str
  current : ∀ file, t.current = some file → base.BeneathStr file.dest

theorem sparesRoot_opened (env : MediaEnv) (t : Sync) (disk : ModelDisk) :
    SparesRoot env t (disk, .opened) := by
  unfold SparesRoot
  split
  case h_1 hevent => cases hevent
  case h_2 => trivial

theorem beneath_launch {env : MediaEnv} {base : AbsPath} {path : Str} {specs : List Json}
    (hbase : resolvedRoot env (launch path specs) = base.str) :
    Beneath env base (launch path specs) := by
  refine ⟨hbase, fun file hfile => ?_⟩
  rw [launch] at hfile
  split at hfile <;> cases hfile

/-- A spec that asks for the root itself has its `.part` opened beside the root. -/
theorem outside_of_not_sparesRoot {env : MediaEnv} {t : Sync} {i : ModelDisk × SyncEvent}
    (hroot : resolvedRoot env t ≠ ['/']) (h : ¬ SparesRoot env t i) :
    ∃ t', taskStep env t i = some t' ∧
      ∀ disk, ¬ WritesBeneath env t' (disk, .opened) := by
  unfold SparesRoot at h
  split at h
  case h_2 => exact absurd trivial h
  case h_1 spec todo found hphase htodo hevent =>
    push Not at h
    obtain ⟨file, hwanted, hdest, habsent⟩ := h
    have hstep : taskStep env t i = some ⟨t.root, todo, .requesting file⟩ := by
      unfold taskStep syncStep
      rw [hphase, htodo, hevent]
      dsimp only
      rw [Option.map_some, look, hwanted]
      exact congrArg some (if_neg habsent)
    refine ⟨_, hstep, ?_⟩
    rintro disk ⟨base, hbase, hall⟩
    have hpart : base.BeneathStr (part file.dest) := hall _ (List.mem_singleton_self _)
    have hbase' : resolvedRoot env t = base.str := hbase
    rw [hdest, hbase', part] at hpart
    refine AbsPath.not_beneathStr_append ?_ (by decide) ⟨'p', by decide, by decide⟩ hpart
    intro hnil
    rw [hbase', AbsPath.str, if_pos hnil] at hroot
    exact hroot rfl

section Run

variable {env : MediaEnv} (hnormal : ∀ t, ∃ q : AbsPath, env.realpath t = q.str)

include hnormal

theorem within_of_wanted {base : AbsPath} {root : Str} {spec : Json} {file : MediaFile}
    (hbase : env.realpath (PurePath.ofStr root).str = base.str)
    (h : wanted env root spec = some file) : base.WithinStr file.dest := by
  rw [wanted] at h
  cases hspec : wellFormed env spec with
  | none =>
    rw [hspec] at h
    cases h
  | some fields =>
    obtain ⟨url, relPath⟩ := fields
    rw [hspec] at h
    dsimp only at h
    split_ifs at h with hinside
    cases h
    obtain ⟨q, hq⟩ := hnormal ((PurePath.ofStr root).join relPath).str
    dsimp only at hinside ⊢
    rw [hq, hbase, AbsPath.isRelativeTo_iff] at hinside
    rw [hq, AbsPath.withinStr_str_iff]
    exact hinside

theorem beneath_step {base : AbsPath} {t t' : Sync} {i : ModelDisk × SyncEvent}
    (h : Beneath env base t) (hspares : SparesRoot env t i) (hstep : taskStep env t i = some t') :
    Beneath env base t' := by
  obtain ⟨r, hr, rfl⟩ := Option.map_eq_some_iff.mp hstep
  obtain ⟨hroot, hcurrent⟩ := current_of_syncStep hr
  refine ⟨by rw [resolvedRoot, hroot]; exact h.root, ?_⟩
  intro file hfile
  rcases hcurrent file hfile with
    hold | ⟨spec, todo, found, hphase, htodo, hevent, hwanted, habsent⟩
  · exact h.current file hold
  · refine (within_of_wanted hnormal h.root hwanted).beneath fun heq => ?_
    rw [SparesRoot, hphase, htodo, hevent] at hspares
    have hpresent := hspares file hwanted (heq.trans h.root.symm)
    rw [habsent] at hpresent
    cases hpresent

theorem writesBeneath_of_sparesRoot {path : Str} {specs : List Json}
    {steps : List (ModelDisk × SyncEvent)}
    (h : Run.Along (taskStep env) (SparesRoot env) (launch path specs) steps) :
    Run.Along (taskStep env) (WritesBeneath env) (launch path specs) steps := by
  obtain ⟨base, hbase⟩ := hnormal (PurePath.ofStr (launch path specs).root).str
  refine Run.along_of_invariant (fun t i t' hi hs hstep => beneath_step hnormal hi hs hstep)
    (fun t i hi _ => ⟨base, hi.root, ?_⟩) (beneath_launch hbase) h
  intro p hp
  obtain ⟨file, hfile, rfl | rfl⟩ := mem_reaches hp
  · exact part_beneath (hi.current file hfile)
  · exact hi.current file hfile

/-- While no spec asks for the models root itself, every file created, replaced or deleted
lies strictly beneath the root; and, the root of the file system apart, only then does this
hold however the tasks go on. -/
theorem writesBeneath_iff_sparesRoot (path : Str) (specs : List Json)
    (steps : List (ModelDisk × SyncEvent)) :
    (Run.Along (taskStep env) (SparesRoot env) (launch path specs) steps →
      Run.Along (taskStep env) (WritesBeneath env) (launch path specs) steps) ∧
    (resolvedRoot env (launch path specs) ≠ ['/'] →
      (Run.Along (taskStep env) (SparesRoot env) (launch path specs) steps ↔
        ∀ n disk, Run.Along (taskStep env) (WritesBeneath env) (launch path specs)
          (steps.take n ++ [(disk, .opened)]))) := by
  refine ⟨writesBeneath_of_sparesRoot hnormal, fun hroot => ⟨fun h n disk => ?_, fun h => ?_⟩⟩
  · have htake : Run.Along (taskStep env) (SparesRoot env) (launch path specs) (steps.take n) := by
      rw [← List.take_append_drop n steps, Run.along_append_iff] at h
      exact h.1
    refine writesBeneath_of_sparesRoot hnormal (Run.along_append_iff.mpr ⟨htake, fun t _ => ?_⟩)
    exact ⟨sparesRoot_opened env t disk, fun _ _ => trivial⟩
  · refine Run.along_of_at fun before i after t hsplit ht => ?_
    by_contra hspares
    have hkept : resolvedRoot env t = resolvedRoot env (launch path specs) := by
      refine Run.exec_preserves (fun t i u (ht : resolvedRoot env t = _) hstep => ?_) rfl ht
      obtain ⟨r, hr, rfl⟩ := Option.map_eq_some_iff.mp hstep
      rw [← ht, resolvedRoot, (current_of_syncStep hr).1]
      rfl
    obtain ⟨t', ht', hout⟩ := outside_of_not_sparesRoot (hkept ▸ hroot) hspares
    have hnext := h (before.length + 1) i.1
    have htake : steps.take (before.length + 1) = before ++ [i] := by
      rw [hsplit, List.take_length_add_append]
      rfl
    rw [htake] at hnext
    refine hout i.1 (hnext.at ?_)
    rw [Run.exec_append, ht, Option.bind_some, Run.exec, ht']
    rfl

end Run

def plainMedia : MediaEnv :=
  ⟨⟨.fin 13, 60⟩, fun _ => [], fun t => (AbsPath.fsRoot.resolve t).str, fun _ _ => true, 8192⟩

def specOf (relPath : Str) : Json :=
  .obj [("url".toList, .str "http://u".toList), ("rel_path".toList, .str relPath)]

def srvModels : Str := "/srv/models"

theorem launch_srvModels (spec : Json) :
    launch srvModels [spec] = ⟨srvModels, [spec], .between⟩ := by
  rw [launch, show modelsRoot srvModels = some srvModels by decide +kernel]

theorem resolvedRoot_srvModels (todo : List Json) (phase : Phase) :
    resolvedRoot plainMedia ⟨srvModels, todo, phase⟩ = srvModels := by
  have hroot : plainMedia.realpath (PurePath.ofStr srvModels).str = srvModels := by decide +kernel
  exact hroot

theorem sparesRoot_nested :
    Run.Along (taskStep plainMedia) (SparesRoot plainMedia) (launch srvModels [specOf "a/b"])
      [(Disk.empty, .next .absent), (Disk.empty, .opened)] := by
  have hwanted : wanted plainMedia srvModels (specOf "a/b") =
      some ⟨"http://u", "/srv/models/a/b"⟩ := by decide +kernel
  rw [launch_srvModels]
  refine ⟨?_, fun t _ => ⟨sparesRoot_opened plainMedia t Disk.empty, fun _ _ => trivial⟩⟩
  intro file hfile hdest
  cases hwanted.symm.trans hfile
  rw [resolvedRoot_srvModels] at hdest
  cases hdest

theorem writesBeneath_iff_sparesRoot_nested :
    Run.Along (taskStep plainMedia) (WritesBeneath plainMedia) (launch srvModels [specOf "a/b"])
      [(Disk.empty, .next .absent), (Disk.empty, .opened)] :=
  (writesBeneath_iff_sparesRoot (fun t => ⟨AbsPath.fsRoot.resolve t, rfl⟩) srvModels [specOf "a/b"]
    [(Disk.empty, .next .absent), (Disk.empty, .opened)]).1 sparesRoot_nested

/-- A spec for `.` while the root is not there: the file opened is the root's `.part`. -/
theorem not_writesBeneath_dot :
    ¬ Run.Along (taskStep plainMedia) (WritesBeneath plainMedia) (launch srvModels [specOf "."])
      [(Disk.empty, .next .absent), (Disk.empty, .opened)] := by
  have hwanted : wanted plainMedia srvModels (specOf ".") =
      some ⟨"http://u", srvModels⟩ := by decide +kernel
  have hnext : taskStep plainMedia (launch srvModels [specOf "."])
      (Disk.empty, .next .absent) =
        some ⟨srvModels, [], .requesting ⟨"http://u", srvModels⟩⟩ := by
    rw [launch_srvModels]
    unfold taskStep syncStep
    dsimp only
    rw [Option.map_some, look, hwanted]
    rfl
  intro h
  obtain ⟨base, hbase, hall⟩ := (h.2 _ hnext).1
  have hpart : base.BeneathStr (part srvModels) := hall _ (List.mem_singleton_self _)
  have hstr : base.str = srvModels := hbase.symm.trans (resolvedRoot_srvModels ..)
  rw [← hstr] at hpart
  refine AbsPath.not_beneathStr_append ?_ (by decide) ⟨'p', by decide, by decide⟩ hpart
  intro hnil
  rw [AbsPath.str, if_pos hnil] at hstr
  cases hstr

end HadcdAgent.Heartbeat
