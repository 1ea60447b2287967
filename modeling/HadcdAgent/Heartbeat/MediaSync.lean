import HadcdAgent.Heartbeat.Tick
import HadcdAgent.Lib.BufferedFile
import HadcdAgent.Lib.PyPath

/-!
# Downloading the media models

A task of `Agent._sync_media_models` (`agent/agent.py`) step by step, and what it has
achieved when it is alone on the disk and all its downloads end well.
-/

namespace HadcdAgent.Heartbeat

open Lib Lib.PyStr

/-! ### The files of a queue -/

/-- `render` is `str()` of what is no string; `whole` tells the bodies of a URL that
are complete: a stream ends without an exception only with one of these. `bufferSize` is
that of a file opened for writing. -/
structure MediaEnv where
  settings : Settings
  render : Json → Str
  realpath : Str → Str
  whole : Str → List UInt8 → Bool
  bufferSize : ℕ

structure MediaFile where
  url : Str
  dest : Str
  deriving DecidableEq

/-- `(self.settings.comfyui_models_path or "").strip()`, `none` when it is empty. -/
def modelsRoot (path : Str) : Option Str := if strip path = [] then none else some (strip path)

/-- `str(spec.get(key, "")).strip()`. -/
def specField (env : MediaEnv) (kvs : List (Str × Json)) (key : Str) : Str :=
  match lookup key kvs with
  | none => []
  | some (.str s) => strip s
  | some value => strip (env.render value)

def wellFormed (env : MediaEnv) : Json → Option (Str × Str)
  | .obj kvs =>
    let url := specField env kvs "url"
    let relPath := (specField env kvs "rel_path").dropWhile fun c => c = '/' || c = '\\'
    if url = [] ∨ relPath = [] then none else some (url, relPath)
  | _ => none

/-- The file that a spec asks for, if it is well formed and stays below the root. -/
def wanted (env : MediaEnv) (root : Str) (spec : Json) : Option MediaFile :=
  match wellFormed env spec with
  | none => none
  | some (url, relPath) =>
    let dest := env.realpath ((PurePath.ofStr root).join relPath).str
    if (PurePath.ofStr dest).isRelativeTo (.ofStr (env.realpath (PurePath.ofStr root).str)) then
      some ⟨url, dest⟩
    else none

/-- `dest.with_suffix(dest.suffix + ".part")`. -/
def part (dest : Str) : Str := dest ++ ".part"

abbrev ModelDisk := Disk Str UInt8

abbrev PartFile := BufferedFile UInt8

/-- The argument of `aiter_bytes`: it yields blocks of this length, and what is left when
the stream has ended. -/
def blockSize : ℕ := 1024 * 1024

theorem blockSize_pos : 0 < blockSize := by decide

/-! ### The task -/

inductive Phase where
  | between
  | requesting (file : MediaFile)
  | writing (file : MediaFile) (f : PartFile)
  | closed (file : MediaFile) (f : PartFile)   -- the client is being closed

/-- A task of `_sync_media_models`: the specs that it has not come to yet. -/
structure Sync where
  root : Str
  todo : List Json
  phase : Phase

def launch (path : Str) (specs : List Json) : Sync :=
  match modelsRoot path with
  | none => ⟨[], [], .between⟩
  | some root => ⟨root, specs, .between⟩

/-- What is at a destination that is no regular file: nothing, or a directory. -/
inductive Found where
  | absent
  | occupied
  deriving DecidableEq

/-- The steps of a task from one await to the next. `ended` is the end of the stream with
what is left of it, which is written before the file is closed. `failed` is an exception in
a download, with whether the unlinking of its `.part` succeeds; `dies` one outside of it. -/
inductive SyncEvent where
  | next (found : Found)
  | opened
  | chunk (bytes : List UInt8)
  | ended (last : List UInt8)
  | replaced
  | failed (unlinked : Bool)
  | dies

/-- `dest.exists() and dest.stat().st_size > 0`. -/
def alreadyPresent (disk : ModelDisk) (dest : Str) (found : Found) : Bool :=
  match disk.read dest with
  | some bytes => bytes ≠ []
  | none => found = .occupied

def look (env : MediaEnv) (disk : ModelDisk) (t : Sync) (spec : Json) (found : Found) : Sync :=
  match wanted env t.root spec with
  | none => t
  | some file =>
    if alreadyPresent disk file.dest found then t else { t with phase := .requesting file }

def dropPart (disk : ModelDisk) (file : MediaFile) (unlinked : Bool) : ModelDisk :=
  if unlinked then disk.unlink (part file.dest) else disk

/-- `tmp.replace(dest)`; without a `.part` it raises, and there is nothing to unlink. -/
def replacePart (disk : ModelDisk) (file : MediaFile) : ModelDisk :=
  match disk.names (part file.dest) with
  | some _ => disk.rename (part file.dest) file.dest
  | none => disk

def Sync.between (t : Sync) : Sync := { t with phase := .between }

def Sync.dead (t : Sync) : Sync := { t with todo := [], phase := .between }

/-- An exception leaves the `with` block, which closes the file. -/
def Sync.leave (t : Sync) (disk : ModelDisk) : ModelDisk :=
  match t.phase with
  | .writing _ f => (f.close 0 disk).2
  | _ => disk

def syncStep (env : MediaEnv) (disk : ModelDisk) (t : Sync) (e : SyncEvent) :
    Option (Sync × ModelDisk) :=
  match t.phase with
  | .between =>
    match t.todo, e with
    | spec :: todo, .next found => some (look env disk { t with todo := todo } spec found, disk)
    | _ :: _, .dies => some (t.dead, disk)
    | _, _ => none
  | .requesting file =>
    match e with
    | .opened =>
      some ({ t with phase := .writing file (.opened (disk.handle (part file.dest))) },
        disk.create (part file.dest))
    | .failed unlinked => some (t.between, dropPart disk file unlinked)
    | .dies => some (t.dead, disk)
    | _ => none
  | .writing file f =>
    match e with
    | .chunk bytes =>
      if bytes.length = blockSize then
        let r := f.write 0 env.bufferSize disk bytes
        some ({ t with phase := .writing file r.1 }, r.2)
      else none
    | .ended last =>
      if last.length < blockSize ∧ env.whole file.url (f.written ++ last) then
        let r := f.write 0 env.bufferSize disk last
        let r := r.1.close 0 r.2
        some ({ t with phase := .closed file r.1 }, r.2)
      else none
    | .failed unlinked => some (t.between, dropPart (t.leave disk) file unlinked)
    | .dies => some (t.dead, t.leave disk)
    | _ => none
  | .closed file _ =>
    match e with
    | .replaced => some (t.between, replacePart disk file)
    | .failed unlinked => some (t.between, dropPart disk file unlinked)
    | .dies => some (t.dead, disk)
    | _ => none

/-! ### What a step can be -/

def Sync.current (t : Sync) : Option MediaFile :=
  match t.phase with
  | .between => none
  | .requesting file | .writing file _ | .closed file _ => some file

/-- The file that the task has opened and the object that it writes to. -/
def Sync.stream (t : Sync) : Option (MediaFile × PartFile) :=
  match t.phase with
  | .writing file f | .closed file f => some (file, f)
  | .between | .requesting _ => none

inductive SyncStep (env : MediaEnv) (disk : ModelDisk) (t : Sync) :
    SyncEvent → Sync × ModelDisk → Prop where
  | next {spec : Json} {todo : List Json} {found : Found} (hphase : t.phase = .between)
      (htodo : t.todo = spec :: todo) :
      SyncStep env disk t (.next found) (look env disk { t with todo := todo } spec found, disk)
  | opened {file : MediaFile} (hphase : t.phase = .requesting file) :
      SyncStep env disk t .opened
        ({ t with phase := .writing file (.opened (disk.handle (part file.dest))) },
          disk.create (part file.dest))
  | chunk {file : MediaFile} {f : PartFile} {bytes out rest : List UInt8}
      (hphase : t.phase = .writing file f) (hlen : bytes.length = blockSize)
      (hsplit : f.pending ++ bytes = out ++ rest) (hrest : env.bufferSize < blockSize → rest = []) :
      SyncStep env disk t (.chunk bytes)
        ({ t with phase := .writing file ⟨f.handle, f.flushed ++ out, rest⟩ }, f.emit 0 disk out)
  | ended {file : MediaFile} {f : PartFile} {last : List UInt8}
      (hphase : t.phase = .writing file f)
      (hwhole : env.whole file.url (f.written ++ last) = true) :
      SyncStep env disk t (.ended last)
        ({ t with phase := .closed file ⟨f.handle, f.written ++ last, []⟩ },
          f.emit 0 disk (f.pending ++ last))
  | replaced {file : MediaFile} {f : PartFile} (hphase : t.phase = .closed file f) :
      SyncStep env disk t .replaced (t.between, replacePart disk file)
  | failed {file : MediaFile} {unlinked : Bool} (hcurrent : t.current = some file) :
      SyncStep env disk t (.failed unlinked) (t.between, dropPart (t.leave disk) file unlinked)
  | dies : SyncStep env disk t .dies (t.dead, t.leave disk)

theorem SyncStep.failed_of_leave {env : MediaEnv} {disk : ModelDisk} {t : Sync} {file : MediaFile}
    (hcurrent : t.current = some file) (hleave : t.leave disk = disk) (unlinked : Bool) :
    SyncStep env disk t (.failed unlinked) (t.between, dropPart disk file unlinked) := by
  have h : SyncStep env disk t (.failed unlinked)
      (t.between, dropPart (t.leave disk) file unlinked) := .failed hcurrent
  rwa [hleave] at h

theorem SyncStep.dies_of_leave {env : MediaEnv} {disk : ModelDisk} {t : Sync}
    (hleave : t.leave disk = disk) : SyncStep env disk t .dies (t.dead, disk) := by
  have h : SyncStep env disk t .dies (t.dead, t.leave disk) := .dies
  rwa [hleave] at h

theorem SyncStep.of_eq {env : MediaEnv} {disk : ModelDisk} {t : Sync} {e : SyncEvent}
    {r : Sync × ModelDisk} (h : syncStep env disk t e = some r) : SyncStep env disk t e r := by
  unfold syncStep at h
  cases hphase : t.phase with
  | between =>
    rw [hphase] at h
    cases htodo : t.todo with
    | nil =>
      rw [htodo] at h
      cases h
    | cons spec todo =>
      rw [htodo] at h
      cases e with
      | next found =>
        cases h
        rw [← hphase]
        exact .next hphase htodo
      | dies =>
        cases h
        exact .dies_of_leave (by rw [Sync.leave, hphase])
      | _ => cases h
  | requesting file =>
    rw [hphase] at h
    have hcurrent : t.current = some file := by rw [Sync.current, hphase]
    have hleave : t.leave disk = disk := by rw [Sync.leave, hphase]
    cases e with
    | opened =>
      cases h
      exact .opened hphase
    | failed unlinked =>
      cases h
      exact .failed_of_leave hcurrent hleave unlinked
    | dies =>
      cases h
      exact .dies_of_leave hleave
    | _ => cases h
  | writing file f =>
    rw [hphase] at h
    have hcurrent : t.current = some file := by rw [Sync.current, hphase]
    cases e with
    | chunk bytes =>
      dsimp only at h
      split_ifs at h with hlen
      cases h
      obtain ⟨out, rest, hsplit, hwrite, hrest⟩ :=
        BufferedFile.exists_write 0 env.bufferSize disk f bytes
      rw [hwrite]
      exact .chunk hphase hlen hsplit (hlen ▸ hrest)
    | ended last =>
      dsimp only at h
      split_ifs at h with hlast
      cases h
      rw [BufferedFile.close_write]
      exact .ended hphase hlast.2
    | failed unlinked =>
      cases h
      exact .failed hcurrent
    | dies =>
      cases h
      exact .dies
    | _ => cases h
  | closed file f =>
    rw [hphase] at h
    have hcurrent : t.current = some file := by rw [Sync.current, hphase]
    have hleave : t.leave disk = disk := by rw [Sync.leave, hphase]
    cases e with
    | replaced =>
      cases h
      exact .replaced hphase
    | failed unlinked =>
      cases h
      exact .failed_of_leave hcurrent hleave unlinked
    | dies =>
      cases h
      exact .dies_of_leave hleave
    | _ => cases h

/-! ### The files on disk -/

def Complete (env : MediaEnv) (disk : ModelDisk) (file : MediaFile) : Prop :=
  ∃ bytes, disk.read file.dest = some bytes ∧ env.whole file.url bytes = true

/-- Every well-formed, safe spec has its file; without a root there is none to have. -/
def Present (env : MediaEnv) (path : Str) (disk : ModelDisk) (specs : List Json) : Prop :=
  match modelsRoot path with
  | none => ∀ spec ∈ specs, wellFormed env spec = none
  | some root => ∀ spec ∈ specs, ∀ file, wanted env root spec = some file → Complete env disk file

def Sync.finished (t : Sync) : Prop := t.phase = .between ∧ t.todo = []

/-- A models root is set, and no two specs ask for one file in two ways or for the
other's `.part`; or there is nothing to download. -/
def Downloadable (env : MediaEnv) (path : Str) (specs : List Json) : Prop :=
  match modelsRoot path with
  | none => ∀ spec ∈ specs, wellFormed env spec = none
  | some root => ∀ spec ∈ specs, ∀ spec' ∈ specs, ∀ file file',
      wanted env root spec = some file → wanted env root spec' = some file' →
        part file.dest ≠ file'.dest ∧ (file.dest = file'.dest → file.url = file'.url)

/-- No download fails, no task dies, and a file that is taken as present is complete. -/
def DownloadsEnd (env : MediaEnv) (disk : ModelDisk) (t : Sync) : SyncEvent → Prop
  | .next found => ∀ spec ∈ t.todo.head?, ∀ file, wanted env t.root spec = some file →
      alreadyPresent disk file.dest found = true → Complete env disk file
  | .opened | .chunk _ | .ended _ | .replaced => True
  | .failed _ | .dies => False

/-! ### One task at work -/

/-- A task on its way through the queue: what it has passed is complete, and it has the
only handle on the `.part` that it writes, which is complete once it is closed. -/
structure Underway (env : MediaEnv) (path : Str) (disk : ModelDisk) (specs : List Json) (t : Sync) :
    Prop where
  root : modelsRoot path = some t.root
  downloadable : Downloadable env path specs
  covered : ∀ spec ∈ specs, ∀ file, wanted env t.root spec = some file →
    Complete env disk file ∨ spec ∈ t.todo ∨ t.current = some file
  todo : ∀ spec ∈ t.todo, spec ∈ specs
  current : ∀ file, t.current = some file → ∃ spec ∈ specs, wanted env t.root spec = some file
  handle : ∀ file f, t.stream = some (file, f) →
    disk.names (part file.dest) = some f.handle ∧ disk.data f.handle = f.flushed
  closed : ∀ file f, t.phase = .closed file f → env.whole file.url f.flushed = true

theorem complete_congr {env : MediaEnv} {disk disk' : ModelDisk} {file : MediaFile}
    (h : disk'.read file.dest = disk.read file.dest) (hc : Complete env disk file) :
    Complete env disk' file := by
  rw [Complete, h]
  exact hc

section Task

variable {env : MediaEnv} {path : Str} {disk : ModelDisk} {specs : List Json} {t : Sync}

theorem Underway.apart (h : Underway env path disk specs t) {file file' : MediaFile} {spec : Json}
    (hfile : t.current = some file) (hspec : spec ∈ specs)
    (hw : wanted env t.root spec = some file') :
    part file.dest ≠ file'.dest ∧ (file.dest = file'.dest → file.url = file'.url) := by
  have hd := h.downloadable
  rw [Downloadable, h.root] at hd
  obtain ⟨spec', hspec', hw'⟩ := h.current file hfile
  exact hd spec' hspec' spec hspec file file' hw' hw

theorem Underway.present (h : Underway env path disk specs t) (hf : t.finished) :
    Present env path disk specs := by
  rw [Present, h.root]
  intro spec hspec file hw
  rcases h.covered spec hspec file hw with hc | htodo | hcur
  · exact hc
  · rw [hf.2] at htodo
    cases htodo
  · rw [Sync.current, hf.1] at hcur
    cases hcur

theorem underway_launch (hd : Downloadable env path specs) (hroot : modelsRoot path ≠ none) :
    Underway env path disk specs (launch path specs) := by
  obtain ⟨root, hr⟩ := Option.ne_none_iff_exists'.mp hroot
  have hl : launch path specs = ⟨root, specs, .between⟩ := by rw [launch, hr]
  rw [hl]
  exact {
    root := hr
    downloadable := hd
    covered := fun spec hspec _ _ => Or.inr (Or.inl hspec)
    todo := fun _ hspec => hspec
    current := fun _ h => (by cases h)
    handle := fun _ _ h => (by cases h)
    closed := fun _ _ h => (by cases h) }

/-- A spec is passed: it asks for nothing, or for a file that is complete. -/
theorem Underway.pass (h : Underway env path disk specs t) {spec : Json} {todo : List Json}
    (htodo : t.todo = spec :: todo)
    (hdone : ∀ file, wanted env t.root spec = some file → Complete env disk file) :
    Underway env path disk specs { t with todo := todo } where
  root := h.root
  downloadable := h.downloadable
  covered := by
    intro spec' hspec' file hw
    rcases h.covered spec' hspec' file hw with hc | hin | hcur
    · exact Or.inl hc
    · rw [htodo] at hin
      rcases List.mem_cons.mp hin with rfl | hin
      · exact Or.inl (hdone file hw)
      · exact Or.inr (Or.inl hin)
    · exact Or.inr (Or.inr hcur)
  todo := fun spec' hin => h.todo spec' (htodo ▸ List.mem_cons_of_mem _ hin)
  current := h.current
  handle := h.handle
  closed := h.closed

theorem Underway.request (h : Underway env path disk specs t) {spec : Json} {todo : List Json}
    {file : MediaFile} (hphase : t.phase = .between) (htodo : t.todo = spec :: todo)
    (hw : wanted env t.root spec = some file) :
    Underway env path disk specs { t with todo := todo, phase := .requesting file } where
  root := h.root
  downloadable := h.downloadable
  covered := by
    intro spec' hspec' file' hw'
    rcases h.covered spec' hspec' file' hw' with hc | hin | hcur
    · exact Or.inl hc
    · rw [htodo] at hin
      rcases List.mem_cons.mp hin with rfl | hin
      · exact Or.inr (Or.inr (hw.symm.trans hw'))
      · exact Or.inr (Or.inl hin)
    · rw [Sync.current, hphase] at hcur
      cases hcur
  todo := fun spec' hin => h.todo spec' (htodo ▸ List.mem_cons_of_mem _ hin)
  current := by
    intro file' hcur
    cases hcur
    exact ⟨spec, h.todo spec (htodo ▸ List.mem_cons_self ..), hw⟩
  handle := fun _ _ h => (by cases h)
  closed := fun _ _ h => (by cases h)

theorem Underway.look (h : Underway env path disk specs t) {spec : Json} {todo : List Json}
    {found : Found} (hphase : t.phase = .between) (htodo : t.todo = spec :: todo)
    (hpresent : ∀ file, wanted env t.root spec = some file →
      alreadyPresent disk file.dest found = true → Complete env disk file) :
    Underway env path disk specs (look env disk { t with todo := todo } spec found) := by
  rw [Heartbeat.look]
  dsimp only
  cases hw : wanted env t.root spec with
  | none => exact h.pass htodo fun file hw' => (by cases hw.symm.trans hw')
  | some file =>
    dsimp only
    split_ifs with hskip
    · refine h.pass htodo fun file' hw' => ?_
      cases hw.symm.trans hw'
      exact hpresent file hw hskip
    · exact h.request hphase htodo hw

/-- While the `.part` is written, the files of the queue are left alone. -/
theorem Underway.write (h : Underway env path disk specs t) {file : MediaFile} {f : PartFile}
    {disk' : ModelDisk} {phase : Phase} (hcur : t.current = some file)
    (hphase : phase = .writing file f ∨
      phase = .closed file f ∧ env.whole file.url f.flushed = true)
    (hread : ∀ p, p ≠ part file.dest → disk'.read p = disk.read p)
    (hname : disk'.names (part file.dest) = some f.handle)
    (hdata : disk'.data f.handle = f.flushed) :
    Underway env path disk' specs { t with phase := phase } := by
  have hcurrent : ∀ file', Sync.current { t with phase := phase } = some file' → file' = file := by
    intro file' hfile'
    rcases hphase with rfl | ⟨rfl, -⟩
    · exact (Option.some.inj hfile').symm
    · exact (Option.some.inj hfile').symm
  have hstream : ∀ file' f', Sync.stream { t with phase := phase } = some (file', f') →
      file' = file ∧ f' = f := by
    intro file' f' hf'
    rcases hphase with rfl | ⟨rfl, -⟩
    · exact Prod.mk.inj (Option.some.inj hf'.symm)
    · exact Prod.mk.inj (Option.some.inj hf'.symm)
  have hself : Sync.current { t with phase := phase } = some file := by
    rcases hphase with rfl | ⟨rfl, -⟩
    · rfl
    · rfl
  refine {
    root := h.root
    downloadable := h.downloadable
    covered := ?_
    todo := h.todo
    current := ?_
    handle := ?_
    closed := ?_ }
  · intro spec hspec file' hw
    rcases h.covered spec hspec file' hw with hc | hin | hcur'
    · have hne := (h.apart hcur hspec hw).1
      exact Or.inl (complete_congr (hread _ hne.symm) hc)
    · exact Or.inr (Or.inl hin)
    · cases hcur.symm.trans hcur'
      exact Or.inr (Or.inr hself)
  · intro file' hcur'
    rw [hcurrent file' hcur']
    exact h.current file hcur
  · intro file' f' hf'
    obtain ⟨rfl, rfl⟩ := hstream file' f' hf'
    exact ⟨hname, hdata⟩
  · intro file' f' hf'
    rcases hphase with rfl | ⟨rfl, hwhole⟩
    · cases hf'
    · cases hf'
      exact hwhole

/-- What goes out to the `.part` continues it. -/
theorem Underway.emit (h : Underway env path disk specs t) {file : MediaFile} {f : PartFile}
    (hstream : t.stream = some (file, f)) (out : List UInt8) :
    (∀ p, p ≠ part file.dest → (f.emit 0 disk out).read p = disk.read p) ∧
    (f.emit 0 disk out).names (part file.dest) = some f.handle ∧
    (f.emit 0 disk out).data f.handle = f.flushed ++ out := by
  obtain ⟨hname, hdata⟩ := h.handle file f hstream
  rw [BufferedFile.names_emit]
  by_cases hout : out = []
  · subst hout
    rw [BufferedFile.emit_nil, List.append_nil]
    exact ⟨fun p hp => rfl, hname, hdata⟩
  · rw [BufferedFile.emit_of_ne hout]
    refine ⟨fun p hp => Disk.read_write_of_ne hname hp .., hname, ?_⟩
    rw [Disk.data_write_self, hdata, Disk.writeAt_length]

theorem Underway.finish (h : Underway env path disk specs t) {file : MediaFile} {f : PartFile}
    (hphase : t.phase = .closed file f) :
    Underway env path (replacePart disk file) specs t.between := by
  have hwhole := h.closed file f hphase
  obtain ⟨hname, hdata⟩ := h.handle file f (by rw [Sync.stream, hphase])
  have hcur : t.current = some file := by rw [Sync.current, hphase]
  have hreplace : replacePart disk file = disk.rename (part file.dest) file.dest := by
    rw [replacePart, hname]
  have hdest : (replacePart disk file).read file.dest = some f.flushed := by
    rw [hreplace, Disk.read_rename_target, Disk.read, hname, Option.map_some, hdata]
  refine {
    root := h.root
    downloadable := h.downloadable
    covered := ?_
    todo := h.todo
    current := fun _ h => (by cases h)
    handle := fun _ _ h => (by cases h)
    closed := fun _ _ h => (by cases h) }
  intro spec hspec file' hw
  obtain ⟨hne, hurl⟩ := h.apart hcur hspec hw
  by_cases hsame : file.dest = file'.dest
  · refine Or.inl ⟨f.flushed, ?_, ?_⟩
    · rw [← hsame, hdest]
    · rw [← hurl hsame, hwhole]
  rcases h.covered spec hspec file' hw with hc | hin | hcur'
  · have hread : (replacePart disk file).read file'.dest = disk.read file'.dest := by
      rw [hreplace, Disk.read_rename_of_ne hne.symm (Ne.symm hsame)]
    exact Or.inl (complete_congr hread hc)
  · exact Or.inr (Or.inl hin)
  · cases hcur.symm.trans hcur'
    exact absurd rfl hsame

theorem Underway.step (h : Underway env path disk specs t) {e : SyncEvent} {r : Sync × ModelDisk}
    (hg : DownloadsEnd env disk t e) (hstep : syncStep env disk t e = some r) :
    Underway env path r.2 specs r.1 := by
  cases SyncStep.of_eq hstep with
  | next hphase htodo => exact h.look hphase htodo (hg _ (by rw [htodo]; exact rfl))
  | @opened file hphase =>
    have hcurrent : t.current = some file := by rw [Sync.current, hphase]
    exact h.write hcurrent (Or.inl rfl) (fun p hp => Disk.read_create_of_ne hp)
      Disk.names_create_self Disk.data_create_handle
  | @chunk file f bytes out rest hphase =>
    have hcurrent : t.current = some file := by rw [Sync.current, hphase]
    obtain ⟨hread, hname, hdata⟩ := h.emit (by rw [Sync.stream, hphase]) out
    exact h.write hcurrent (Or.inl rfl) hread hname hdata
  | @ended file f last hphase hwhole =>
    have hcurrent : t.current = some file := by rw [Sync.current, hphase]
    obtain ⟨hread, hname, hdata⟩ := h.emit (by rw [Sync.stream, hphase]) (f.pending ++ last)
    rw [← List.append_assoc] at hdata
    exact h.write hcurrent (Or.inr ⟨rfl, hwhole⟩) hread hname hdata
  | replaced hphase => exact h.finish hphase
  | failed => cases hg
  | dies => cases hg

end Task

theorem syncStep_of_finished {env : MediaEnv} {disk : ModelDisk} {t : Sync} (h : t.finished)
    (e : SyncEvent) : syncStep env disk t e = none := by
  unfold syncStep
  rw [h.1, h.2]

end HadcdAgent.Heartbeat
