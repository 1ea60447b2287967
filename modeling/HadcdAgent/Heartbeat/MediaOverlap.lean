import HadcdAgent.Heartbeat.MediaModels
import HadcdAgent.Heartbeat.MediaParts

/-!
# Overlapping downloads of one model file

A queue of `pending_media_models` that is delivered again while its first task is at work
starts a second task of `Agent._sync_media_models` (`agent/agent.py`) for the same files.
-/

namespace HadcdAgent.Heartbeat

open Lib Lib.PyStr

/-! ### The downloads of a file -/

def Serves (env : MediaEnv) (file : MediaFile) (body : List UInt8) : Prop :=
  ∀ bytes, env.whole file.url bytes = true ↔ bytes = body

/-- The specs of the queues ask for `file` or for files apart, and each stream of `file`
delivers `body`, as far as it comes. -/
def Redelivers (env : MediaEnv) (file : MediaFile) (body : List UInt8) (w : MediaWorld) :
    MediaInput → Prop
  | .sync i (.next _) => ∀ t ∈ w.syncs[i]?, ∀ spec ∈ t.todo.head?, ∀ other,
      wanted env t.root spec = some other → other = file ∨ Apart file other
  | .sync i (.chunk bytes) => ∀ t ∈ w.syncs[i]?, ∀ f, t.phase = .writing file f →
      f.written ++ bytes <+: body
  | _ => True

/-- The `.part` of a file that has bytes is opened while another task has it open, or has
closed it and not yet put it in place: only where that one has the file open that is now
emptied, and what has gone out to it is not missed, being nothing, or zeros with more to
come. -/
def OpensHarmlessly (file : MediaFile) (body : List UInt8) (w : MediaWorld) : MediaInput → Prop
  | .sync i .opened => ∀ t ∈ w.syncs[i]?, t.phase = .requesting file →
      ∀ t' ∈ w.syncs, ∀ f, t'.stream = some (file, f) → body ≠ [] →
        w.disk.names (part file.dest) = some f.handle ∧ f.flushed ≠ body ∧ ∀ b ∈ f.flushed, b = 0
  | _ => True

/-- When no task is running, a file at the destination is complete. -/
def WholeWhenIdle (file : MediaFile) (body : List UInt8) (w : MediaWorld) : Prop :=
  (∀ t ∈ w.syncs, t.finished) → ∀ bytes, w.disk.read file.dest = some bytes → bytes = body

def MediaInput.opens : MediaInput → Bool
  | .sync _ .opened => true
  | _ => false

theorem opensHarmlessly_of_not_opens {file : MediaFile} {body : List UInt8} (w : MediaWorld)
    {i : MediaInput} (h : i.opens = false) : OpensHarmlessly file body w i := by
  unfold OpensHarmlessly
  split
  · cases h
  · trivial

/-! ### The step of a task -/

def Sound (file : MediaFile) (body : List UInt8) (w : MediaWorld) : Prop :=
  ∃ own, Kept file body own w.disk ∧ ∀ t ∈ w.syncs, Fits file body own w.disk t

section Step

variable {env : MediaEnv} {file : MediaFile} {body : List UInt8} {own : ℕ → Prop}
  {w w' : MediaWorld} {t : Sync} {i : ℕ} {e : SyncEvent} {r : Sync × ModelDisk}

theorem sound_elsewhere (hk : Kept file body own w.disk)
    (hall : ∀ t ∈ w.syncs, Fits file body own w.disk t) (he : Elsewhere file own w.disk r.2)
    (hr : Fits file body own r.2 r.1) :
    Sound file body { w with syncs := w.syncs.set i r.1, disk := r.2 } := by
  refine ⟨own, hk.elsewhere he, fun t ht => ?_⟩
  rcases List.mem_or_eq_of_mem_set ht with hold | rfl
  · exact (hall t hold).elsewhere hk he
  · exact hr

theorem fits_of_no_stream {disk : ModelDisk} (hstream : t.stream = none)
    (hcurrent : ∀ other, t.current = some other → other = file ∨ Apart file other) :
    Fits file body own disk t where
  current := hcurrent
  writer f hf := by
    rw [hstream] at hf
    cases hf
  closed f hf := by
    rw [Sync.stream, hf] at hstream
    cases hstream
  other other f hf := by
    rw [hstream] at hf
    cases hf

theorem fits_between (disk : ModelDisk) (h : t.phase = .between) : Fits file body own disk t := by
  refine fits_of_no_stream (by rw [Sync.stream, h]) fun other hother => ?_
  rw [Sync.current, h] at hother
  cases hother

theorem fits_look {spec : Json} {found : Found} (disk : ModelDisk) (hphase : t.phase = .between)
    (hspec : ∀ other, wanted env t.root spec = some other → other = file ∨ Apart file other) :
    Fits file body own disk (look env disk t spec found) := by
  rw [look]
  cases hw : wanted env t.root spec with
  | none => exact fits_between disk hphase
  | some other =>
    dsimp only
    split_ifs
    · exact fits_between disk hphase
    · refine fits_of_no_stream rfl fun other' hother => ?_
      cases hother
      exact hspec other hw

theorem current_of_stream {f : PartFile} {other : MediaFile} (h : t.stream = some (other, f)) :
    t.current = some other := by
  rw [Sync.stream] at h
  rw [Sync.current]
  split at h
  case h_1 hphase | h_2 hphase =>
    cases h
    rw [hphase]
  case h_3 | h_4 => cases h

theorem fits_file {disk : ModelDisk} {f : PartFile} (hstream : t.stream = some (file, f))
    (hclosed : ∀ g, t.phase = .closed file g → g.flushed = body) (hown : own f.handle)
    (hw : Writer file body disk f) : Fits file body own disk t where
  current other h := by
    cases (current_of_stream hstream).symm.trans h
    exact Or.inl rfl
  writer g h := by
    cases hstream.symm.trans h
    exact ⟨hown, hw⟩
  closed := hclosed
  other other g h hne := by
    cases hstream.symm.trans h
    exact absurd rfl hne

theorem Apart.ne {other : MediaFile} (h : Apart file other) : other ≠ file := by
  rintro rfl
  exact h.dest rfl

theorem fits_other {other : MediaFile} {disk : ModelDisk} {f : PartFile} (h : Apart file other)
    (hstream : t.stream = some (other, f)) (hown : ¬ own f.handle) (hlt : f.handle < disk.next) :
    Fits file body own disk t where
  current other' hcurrent := by
    cases (current_of_stream hstream).symm.trans hcurrent
    exact Or.inr h
  writer g hg := by
    cases hstream.symm.trans hg
    exact absurd rfl h.ne
  closed g hg := by
    have hfile : t.current = some file := by rw [Sync.current, hg]
    cases (current_of_stream hstream).symm.trans hfile
    exact absurd rfl h.ne
  other other' g hg _ := by
    cases hstream.symm.trans hg
    exact ⟨hown, hlt⟩

/-- A task that goes on writing the file, or closes it, with `out` gone out. -/
theorem sound_emit {f : PartFile} {out rest : List UInt8} {t' : Sync}
    (hk : Kept file body own w.disk) (hall : ∀ t ∈ w.syncs, Fits file body own w.disk t)
    (ht : t ∈ w.syncs) (hstream : t.stream = some (file, f))
    (hcame : f.flushed ++ out ++ rest <+: body)
    (hstream' : t'.stream = some (file, ⟨f.handle, f.flushed ++ out, rest⟩))
    (hclosed : ∀ g, t'.phase = .closed file g → g.flushed = body) :
    Sound file body { w with syncs := w.syncs.set i t', disk := f.emit 0 w.disk out } := by
  obtain ⟨hown, hw⟩ := (hall t ht).writer f hstream
  have hout : f.flushed ++ out <+: body := (List.prefix_append _ rest).trans hcame
  refine ⟨own, hk.emit hw hout, fun u hu => ?_⟩
  rcases List.mem_or_eq_of_mem_set hu with hold | rfl
  · exact (hall u hold).emit hw hout
  · exact fits_file hstream' hclosed hown (hw.emit_self hcame)

/-- A task that goes on writing another file. -/
theorem sound_emit_other {f : PartFile} {other : MediaFile} {out rest : List UInt8} {t' : Sync}
    (hk : Kept file body own w.disk) (hall : ∀ t ∈ w.syncs, Fits file body own w.disk t)
    (ht : t ∈ w.syncs) (hapart : Apart file other) (hstream : t.stream = some (other, f))
    (hstream' : t'.stream = some (other, ⟨f.handle, f.flushed ++ out, rest⟩)) :
    Sound file body { w with syncs := w.syncs.set i t', disk := f.emit 0 w.disk out } := by
  obtain ⟨hown, hlt⟩ := (hall t ht).other other f hstream hapart.ne
  rw [← next_emit w.disk f out] at hlt
  refine ⟨own, hk.elsewhere (elsewhere_emit hown out), fun u hu => ?_⟩
  rcases List.mem_or_eq_of_mem_set hu with hold | rfl
  · exact (hall u hold).elsewhere hk (elsewhere_emit hown out)
  · exact fits_other hapart hstream' hown hlt

/-- What the buffer of a file that is left by an exception holds goes out. -/
theorem kept_leave (hk : Kept file body own w.disk)
    (hall : ∀ t ∈ w.syncs, Fits file body own w.disk t) (ht : t ∈ w.syncs) :
    Kept file body own (t.leave w.disk) ∧
      ∀ u ∈ w.syncs, Fits file body own (t.leave w.disk) u := by
  cases hphase : t.phase with
  | writing other f =>
    have hstream : t.stream = some (other, f) := by rw [Sync.stream, hphase]
    have hleave : t.leave w.disk = f.emit 0 w.disk f.pending := by
      rw [Sync.leave, hphase]
      rfl
    rw [hleave]
    rcases (hall t ht).current other (current_of_stream hstream) with rfl | hapart
    · obtain ⟨hown, hw⟩ := (hall t ht).writer f hstream
      exact ⟨hk.emit hw hw.came, fun u hu => (hall u hu).emit hw hw.came⟩
    · obtain ⟨hown, -⟩ := (hall t ht).other other f hstream hapart.ne
      exact ⟨hk.elsewhere (elsewhere_emit hown f.pending),
        fun u hu => (hall u hu).elsewhere hk (elsewhere_emit hown f.pending)⟩
  | _ =>
    rw [Sync.leave, hphase]
    exact ⟨hk, hall⟩

theorem sound_sync (hserves : Serves env file body) (h : Sound file body w)
    (hr : Redelivers env file body w (.sync i e)) (hg : OpensHarmlessly file body w (.sync i e))
    (ht : t ∈ w.syncs[i]?) (hstep : SyncStep env w.disk t e r) :
    Sound file body { w with syncs := w.syncs.set i r.1, disk := r.2 } := by
  obtain ⟨own, hk, hall⟩ := h
  have hmem : t ∈ w.syncs := List.mem_of_getElem? ht
  have hfits := hall t hmem
  cases hstep with
  | @next spec todo found hphase htodo =>
    refine sound_elsewhere hk hall (elsewhere_refl file own w.disk) ?_
    exact fits_look w.disk hphase (hr t ht spec (by rw [htodo]; exact rfl))
  | @opened other hphase =>
    have hcurrent : t.current = some other := by rw [Sync.current, hphase]
    rcases hfits.current other hcurrent with rfl | hapart
    · refine ⟨_, hk.create_part, fun t' ht' => ?_⟩
      rcases List.mem_or_eq_of_mem_set ht' with hold | rfl
      · exact (hall t' hold).create_part hk (hg t ht hphase t' hold)
      · exact fits_file rfl (fun g hg => by cases hg) (Or.inr rfl) writer_opened
    · obtain ⟨hown, he⟩ := elsewhere_create hk hapart.part hapart.parts
      exact sound_elsewhere hk hall he (fits_other hapart rfl hown (w.disk.handle_lt _))
  | @chunk other f bytes out rest hphase hlen hsplit =>
    have hstream : t.stream = some (other, f) := by rw [Sync.stream, hphase]
    rcases hfits.current other (current_of_stream hstream) with rfl | hapart
    · have hcame := hr t ht f hphase
      rw [BufferedFile.written, List.append_assoc, hsplit, ← List.append_assoc] at hcame
      exact sound_emit hk hall hmem hstream hcame rfl fun g hg => by cases hg
    · exact sound_emit_other hk hall hmem hapart hstream rfl
  | @ended other f last hphase hwhole =>
    have hstream : t.stream = some (other, f) := by rw [Sync.stream, hphase]
    have hflush : f.written ++ last = f.flushed ++ (f.pending ++ last) := List.append_assoc ..
    rcases hfits.current other (current_of_stream hstream) with rfl | hapart
    · have hbody : f.written ++ last = body := (hserves _).mp hwhole
      have hcame : f.flushed ++ (f.pending ++ last) ++ [] <+: body := by
        rw [List.append_nil, ← hflush, hbody]
      refine sound_emit hk hall hmem hstream hcame (by rw [← hflush]; rfl) fun g hg => ?_
      cases hg
      exact hbody
    · exact sound_emit_other hk hall hmem hapart hstream (by rw [← hflush]; rfl)
  | @replaced other f hphase =>
    have hstream : t.stream = some (other, f) := by rw [Sync.stream, hphase]
    rcases hfits.current other (current_of_stream hstream) with rfl | hapart
    · obtain ⟨-, hw⟩ := hfits.writer f hstream
      refine ⟨own, hk.replacePart hw (hfits.closed f hphase), fun t' ht' => ?_⟩
      rcases List.mem_or_eq_of_mem_set ht' with hold | rfl
      · exact (hall t' hold).replacePart
      · exact fits_between _ rfl
    · exact sound_elsewhere hk hall (elsewhere_replacePart hk hapart) (fits_between _ rfl)
  | @failed other unlinked hcurrent =>
    obtain ⟨hleft, hall⟩ := kept_leave hk hall hmem
    exact sound_elsewhere (w := { w with disk := t.leave w.disk }) hleft hall
      (elsewhere_dropPart (hfits.current other hcurrent) unlinked) (fits_between _ rfl)
  | dies =>
    obtain ⟨hleft, hall⟩ := kept_leave hk hall hmem
    exact sound_elsewhere (w := { w with disk := t.leave w.disk }) hleft hall
      (elsewhere_refl file own _) (fits_between _ rfl)

theorem sound_of_subset (h : Sound file body w) (hdisk : w'.disk = w.disk)
    (hsyncs : ∀ t ∈ w'.syncs, t ∈ w.syncs ∨ t.phase = .between) : Sound file body w' := by
  obtain ⟨own, hk, hall⟩ := h
  refine ⟨own, hdisk ▸ hk, fun t ht => ?_⟩
  rcases hsyncs t ht with hold | hnew
  · rw [hdisk]
    exact hall t hold
  · exact fits_between _ hnew

theorem sound_step {input : MediaInput} (hserves : Serves env file body) (h : Sound file body w)
    (hr : Redelivers env file body w input) (hg : OpensHarmlessly file body w input)
    (hstep : mediaStep env w input = some w') : Sound file body w' := by
  rcases mediaStep_cases hstep with ⟨hdisk, hsyncs⟩ | ⟨i, e, t, r, rfl, ht, hsync, rfl⟩
  · exact sound_of_subset h hdisk hsyncs
  · exact sound_sync hserves h hr hg ht (SyncStep.of_eq hsync)

theorem sound_start {disk : ModelDisk}
    (hdisk : ∀ bytes, disk.read file.dest = some bytes → bytes = body) (heat : HeatOverride.Node)
    (files : EnvFiles) (path : Str) : Sound file body (mediaStart heat files path disk) := by
  refine ⟨fun i => disk.names file.dest = some i ∨ disk.names (part file.dest) = some i,
    ⟨fun i hi => ?_, fun p i hp => ⟨fun hi => ?_, ?_⟩, hdisk⟩, fun t ht => by cases ht⟩
  · rcases hi with hi | hi
    · exact disk.bounded hi
    · exact disk.bounded hi
  · exact hi.imp (disk.unlinked hp) (disk.unlinked hp)
  · rintro (rfl | rfl)
    · exact Or.inl hp
    · exact Or.inr hp

end Step

/-! ### Blocks that are longer than the buffer -/

/-- Nothing waits in the buffers of the tasks' files. -/
def Sync.Flushed (t : Sync) : Prop := ∀ file f, t.stream = some (file, f) → f.pending = []

def AllFlushed (w : MediaWorld) : Prop := ∀ t ∈ w.syncs, t.Flushed

section Flushed

variable {env : MediaEnv} {w w' : MediaWorld} {disk : ModelDisk} {t : Sync} {e : SyncEvent}
  {r : Sync × ModelDisk}

theorem flushed_of_no_stream (h : t.stream = none) : t.Flushed := by
  intro file f hf
  rw [h] at hf
  cases hf

theorem flushed_of_stream {file : MediaFile} {handle : ℕ} {flushed : List UInt8}
    (h : t.stream = some (file, ⟨handle, flushed, []⟩)) : t.Flushed := by
  intro file' f hf
  cases h.symm.trans hf
  rfl

theorem flushed_syncStep (hbuffer : env.bufferSize < blockSize) (hstep : SyncStep env disk t e r) :
    r.1.Flushed := by
  cases hstep with
  | next hphase htodo =>
    refine flushed_of_no_stream ?_
    rw [look]
    split
    · rw [Sync.stream, hphase]
    · split_ifs
      · rw [Sync.stream, hphase]
      · rfl
  | opened => exact flushed_of_stream rfl
  | chunk hphase hlen hsplit hrest =>
    rw [hrest hbuffer]
    exact flushed_of_stream rfl
  | ended => exact flushed_of_stream rfl
  | replaced | failed | dies => exact flushed_of_no_stream rfl

theorem allFlushed_step {input : MediaInput} (hbuffer : env.bufferSize < blockSize)
    (h : AllFlushed w) (hstep : mediaStep env w input = some w') : AllFlushed w' := by
  rcases mediaStep_cases hstep with ⟨-, hsyncs⟩ | ⟨i, e, t, r, rfl, ht, hsync, rfl⟩
  · intro t ht
    rcases hsyncs t ht with hold | hnew
    · exact h t hold
    · exact flushed_of_no_stream (by rw [Sync.stream, hnew])
  · intro u hu
    rcases List.mem_or_eq_of_mem_set hu with hold | rfl
    · exact h u hold
    · exact flushed_syncStep hbuffer (SyncStep.of_eq hsync)

theorem leave_of_flushed (h : t.Flushed) (disk : ModelDisk) : t.leave disk = disk := by
  cases hphase : t.phase with
  | writing file f =>
    have hpending : f.pending = [] := h file f (by rw [Sync.stream, hphase])
    rw [Sync.leave, hphase]
    dsimp only
    rw [BufferedFile.close, hpending, BufferedFile.emit_nil]
  | _ => rw [Sync.leave, hphase]

end Flushed

/-! ### How a harmful opening ends -/

section Torn

variable {env : MediaEnv} {file : MediaFile} {body : List UInt8} {w w' w'' : MediaWorld}

/-- The inputs lead from `w` to `w'`, and deliver the file as `Redelivers` says. -/
structure Delivers (env : MediaEnv) (file : MediaFile) (body : List UInt8) (w : MediaWorld)
    (inputs : List MediaInput) (w' : MediaWorld) : Prop where
  redelivers : Run.Along (mediaStep env) (Redelivers env file body) w inputs
  exec : Run.exec (mediaStep env) w inputs = some w'

theorem Delivers.append {is js : List MediaInput} (h : Delivers env file body w is w')
    (h' : Delivers env file body w' js w'') : Delivers env file body w (is ++ js) w'' where
  redelivers := by
    refine Run.along_append_iff.mpr ⟨h.redelivers, fun t ht => ?_⟩
    cases h.exec.symm.trans ht
    exact h'.redelivers
  exec := by rw [Run.exec_append, h.exec, Option.bind_some, h'.exec]

theorem Delivers.of_step {input : MediaInput} (hr : Redelivers env file body w input)
    (hstep : mediaStep env w input = some w') : Delivers env file body w [input] w' where
  redelivers := ⟨hr, fun _ _ => trivial⟩
  exec := by
    rw [Run.exec, hstep]
    rfl

/-- The tasks can go on from `w` to `w'` with no more files opened. -/
def Winds (env : MediaEnv) (file : MediaFile) (body : List UInt8) (w w' : MediaWorld) : Prop :=
  ∃ rest, Delivers env file body w rest w' ∧ ∀ i ∈ rest, MediaInput.opens i = false

theorem Winds.refl (w : MediaWorld) : Winds env file body w w :=
  ⟨[], ⟨trivial, rfl⟩, fun i hi => by cases hi⟩

theorem Winds.of_step {input : MediaInput} (hstep : mediaStep env w input = some w')
    (hr : Redelivers env file body w input) (hopens : input.opens = false) :
    Winds env file body w w' := by
  refine ⟨[input], .of_step hr hstep, fun i hi => ?_⟩
  rw [List.mem_singleton.mp hi, hopens]

theorem Winds.trans (h : Winds env file body w w') (h' : Winds env file body w' w'') :
    Winds env file body w w'' := by
  obtain ⟨rest, hr, hopens⟩ := h
  obtain ⟨rest', hr', hopens'⟩ := h'
  refine ⟨rest ++ rest', hr.append hr', fun i hi => ?_⟩
  exact (List.mem_append.mp hi).elim (hopens i) (hopens' i)

theorem mediaStep_sync {i : ℕ} {t : Sync} {e : SyncEvent} {r : Sync × ModelDisk}
    (ht : w.syncs[i]? = some t) (hstep : syncStep env w.disk t e = some r) :
    mediaStep env w (.sync i e) = some { w with syncs := w.syncs.set i r.1, disk := r.2 } := by
  rw [mediaStep, ht]
  dsimp only
  rw [hstep]
  rfl

theorem syncStep_dies {t : Sync} (hflushed : t.Flushed) (disk : ModelDisk)
    (h : ¬ t.finished) : syncStep env disk t .dies = some (t.dead, disk) := by
  have hleave := leave_of_flushed hflushed disk
  unfold syncStep
  cases hphase : t.phase with
  | between =>
    cases htodo : t.todo with
    | nil => exact absurd ⟨hphase, htodo⟩ h
    | cons spec todo => rfl
  | requesting => rfl
  | writing =>
    dsimp only
    rw [hleave]
  | closed => rfl

/-- The tasks can all end without another change on the disk. -/
theorem exists_idle (file : MediaFile) (body : List UInt8) (hw : AllFlushed w) :
    ∃ w', Winds env file body w w' ∧ w'.disk = w.disk ∧ ∀ t ∈ w'.syncs, t.finished := by
  have hfirst : ∀ n : ℕ, ∃ w', Winds env file body w w' ∧ w'.disk = w.disk ∧ AllFlushed w' ∧
      w'.syncs.length = w.syncs.length ∧ ∀ k < n, ∀ t ∈ w'.syncs[k]?, t.finished := by
    intro n
    induction n with
    | zero => exact ⟨w, Winds.refl w, rfl, hw, rfl, fun k hk => absurd hk (Nat.not_lt_zero k)⟩
    | succ n ih =>
      obtain ⟨u, hwinds, hdisk, hflushed, hlen, hdone⟩ := ih
      by_cases hn : ∀ t ∈ u.syncs[n]?, t.finished
      · refine ⟨u, hwinds, hdisk, hflushed, hlen, fun k hk => ?_⟩
        rcases Nat.lt_succ_iff_lt_or_eq.mp hk with hlt | rfl
        · exact hdone k hlt
        · exact hn
      · push Not at hn
        obtain ⟨t, ht, hwork⟩ := hn
        have hdies : syncStep env u.disk t .dies = some (t.dead, u.disk) :=
          syncStep_dies (hflushed t (List.mem_of_getElem? ht)) u.disk hwork
        have hstep := mediaStep_sync ht hdies
        refine ⟨_, hwinds.trans (Winds.of_step hstep trivial rfl), hdisk, ?_, ?_, fun k hk => ?_⟩
        · intro t' ht'
          rcases List.mem_or_eq_of_mem_set ht' with hold | rfl
          · exact hflushed t' hold
          · exact flushed_of_no_stream rfl
        · exact List.length_set.trans hlen
        · intro t' ht'
          dsimp only at ht'
          by_cases hkn : n = k
          · subst hkn
            rw [List.getElem?_set_self (List.getElem?_eq_some_iff.mp ht).1] at ht'
            cases ht'
            exact ⟨rfl, rfl⟩
          · rw [List.getElem?_set_ne hkn] at ht'
            exact hdone k (by omega) t' ht'
  obtain ⟨w', hwinds, hdisk, -, hlen, hdone⟩ := hfirst w.syncs.length
  refine ⟨w', hwinds, hdisk, fun t ht => ?_⟩
  obtain ⟨k, hk, rfl⟩ := List.mem_iff_getElem.mp ht
  exact hdone k (hlen ▸ hk) _ (List.getElem?_eq_getElem hk)

theorem read_replacePart {disk : ModelDisk} {i : ℕ}
    (h : disk.names (part file.dest) = some i) :
    (replacePart disk file).read file.dest = some (disk.data i) := by
  rw [replacePart, h]
  dsimp only
  rw [Disk.read_rename_target, Disk.read, h, Option.map_some]

theorem Winds.allFlushed (hbuffer : env.bufferSize < blockSize) (h : Winds env file body w w')
    (hw : AllFlushed w) : AllFlushed w' := by
  obtain ⟨rest, hrest, -⟩ := h
  exact Run.exec_preserves (fun _ _ _ hs hstep => allFlushed_step hbuffer hs hstep) hw hrest.exec

theorem syncStep_chunk (hbuffer : env.bufferSize < blockSize) {disk : ModelDisk} {t : Sync}
    {f : PartFile} {bytes : List UInt8} (hphase : t.phase = .writing file f)
    (hpending : f.pending = []) (hlen : bytes.length = blockSize) :
    syncStep env disk t (.chunk bytes) =
      some ({ t with phase := .writing file ⟨f.handle, f.flushed ++ bytes, []⟩ },
        f.emit 0 disk bytes) := by
  unfold syncStep
  rw [hphase]
  dsimp only
  rw [if_pos hlen, BufferedFile.write_of_long (by rw [hlen]; exact hbuffer),
    BufferedFile.written, hpending, List.append_nil, List.nil_append]

theorem syncStep_ended {disk : ModelDisk} {t : Sync} {f : PartFile} {last : List UInt8}
    (hphase : t.phase = .writing file f) (hpending : f.pending = [])
    (hlast : last.length < blockSize) (hwhole : env.whole file.url (f.flushed ++ last) = true) :
    syncStep env disk t (.ended last) =
      some ({ t with phase := .closed file ⟨f.handle, f.flushed ++ last, []⟩ },
        f.emit 0 disk last) := by
  have hwritten : f.written = f.flushed := by
    rw [BufferedFile.written, hpending, List.append_nil]
  unfold syncStep
  rw [hphase]
  dsimp only
  rw [hwritten, if_pos ⟨hlast, hwhole⟩, BufferedFile.close_write, hwritten, hpending,
    List.nil_append]

theorem exists_replaced {i : ℕ} {t : Sync} {f : PartFile} (ht : w.syncs[i]? = some t)
    (hphase : t.phase = .closed file f) :
    ∃ w', Winds env file body w w' ∧ w'.disk = replacePart w.disk file := by
  have hstep : syncStep env w.disk t .replaced = some (t.between, replacePart w.disk file) := by
    unfold syncStep
    rw [hphase]
  exact ⟨_, Winds.of_step (mediaStep_sync ht hstep) trivial rfl, rfl⟩

/-- What is left of the stream is shorter than a block. -/
theorem exists_ended_of_short (hserves : Serves env file body) {i : ℕ} {t : Sync} {f : PartFile}
    {rest : List UInt8} (ht : w.syncs[i]? = some t) (hphase : t.phase = .writing file f)
    (hpending : f.pending = []) (hbody : f.flushed ++ rest = body)
    (hshort : rest.length < blockSize) :
    ∃ w', Winds env file body w w' ∧ w'.disk = replacePart (f.emit 0 w.disk rest) file := by
  let closed : Sync := { t with phase := .closed file ⟨f.handle, f.flushed ++ rest, []⟩ }
  have hstep : syncStep env w.disk t (.ended rest) = some (closed, f.emit 0 w.disk rest) :=
    syncStep_ended hphase hpending hshort ((hserves _).mpr hbody)
  let u : MediaWorld := { w with syncs := w.syncs.set i closed, disk := f.emit 0 w.disk rest }
  have hu : u.syncs[i]? = some closed :=
    List.getElem?_set_self (List.getElem?_eq_some_iff.mp ht).1
  have hend : ∃ w', Winds env file body u w' ∧ w'.disk = replacePart u.disk file :=
    exists_replaced hu rfl
  obtain ⟨w', hwinds, hdisk⟩ := hend
  exact ⟨w', (Winds.of_step (mediaStep_sync ht hstep) trivial rfl).trans hwinds, hdisk⟩

/-- A task whose stream goes through, block by block, puts the `.part` in place. -/
theorem exists_ended (hbuffer : env.bufferSize < blockSize) (hserves : Serves env file body)
    {i n : ℕ} {t : Sync} {f : PartFile} {rest : List UInt8} (hn : rest.length ≤ n)
    (ht : w.syncs[i]? = some t) (hphase : t.phase = .writing file f) (hpending : f.pending = [])
    (hbody : f.flushed ++ rest = body) :
    ∃ w', Winds env file body w w' ∧ w'.disk = replacePart (f.emit 0 w.disk rest) file := by
  have hpos := blockSize_pos
  induction n generalizing w t f rest with
  | zero => exact exists_ended_of_short hserves ht hphase hpending hbody (by omega)
  | succ n ih =>
    by_cases hshort : rest.length < blockSize
    · exact exists_ended_of_short hserves ht hphase hpending hbody hshort
    have hblock : (rest.take blockSize).length = blockSize := by
      rw [List.length_take]
      omega
    let next : Sync :=
      { t with phase := .writing file ⟨f.handle, f.flushed ++ rest.take blockSize, []⟩ }
    have hstep : syncStep env w.disk t (.chunk (rest.take blockSize)) =
        some (next, f.emit 0 w.disk (rest.take blockSize)) :=
      syncStep_chunk hbuffer hphase hpending hblock
    have hr : Redelivers env file body w (.sync i (.chunk (rest.take blockSize))) := by
      intro t' ht' f' hphase'
      cases ht.symm.trans ht'
      cases hphase.symm.trans hphase'
      rw [BufferedFile.written, hpending, List.append_nil, ← hbody]
      exact (List.prefix_append_right_inj f.flushed).mpr (List.take_prefix blockSize rest)
    let u : MediaWorld :=
      { w with syncs := w.syncs.set i next, disk := f.emit 0 w.disk (rest.take blockSize) }
    have hu : u.syncs[i]? = some next :=
      List.getElem?_set_self (List.getElem?_eq_some_iff.mp ht).1
    have hshorter : (rest.drop blockSize).length ≤ n := by
      rw [List.length_drop]
      omega
    have hrest : f.flushed ++ rest.take blockSize ++ rest.drop blockSize = body := by
      rw [List.append_assoc, List.take_append_drop, hbody]
    obtain ⟨w', hwinds, hdisk⟩ := ih hshorter hu rfl rfl hrest
    refine ⟨w', (Winds.of_step (mediaStep_sync ht hstep) hr rfl).trans hwinds, ?_⟩
    rw [hdisk, BufferedFile.emit_append, List.take_append_drop]

/-- What is at the destination when a task ends whose `.part` was emptied under its hands. -/
theorem data_torn {own : ℕ → Prop} {disk : ModelDisk} {f : PartFile} {rest : List UInt8}
    (hk : Kept file body own disk) (hown : own f.handle) (hrest : f.flushed ++ rest = body)
    (hbody : body ≠ []) (hharm : ¬ (disk.names (part file.dest) = some f.handle ∧
      f.flushed ≠ body ∧ ∀ b ∈ f.flushed, b = 0)) :
    (f.emit 0 (disk.create (part file.dest)) rest).data (disk.handle (part file.dest)) ≠ body := by
  by_cases hdone : rest = []
  · rw [hdone, BufferedFile.emit_nil, Disk.data_create_handle]
    exact hbody.symm
  by_cases hhandle : disk.handle (part file.dest) = f.handle
  · have hlt := hk.bounded f.handle hown
    rw [← hhandle] at hlt
    have hname : disk.names (part file.dest) = some f.handle := by
      rw [Disk.names_of_handle_lt hlt, hhandle]
    have hempty : (disk.create (part file.dest)).data f.handle = [] := by
      rw [← hhandle, Disk.data_create_handle]
    rw [hhandle, BufferedFile.emit_of_ne hdone, Disk.data_write_self, hempty, Disk.writeAt_nil]
    intro heq
    rw [← hrest] at heq
    have hzero : List.replicate f.flushed.length 0 = f.flushed := List.append_cancel_right heq
    refine hharm ⟨hname, fun hall => hdone ?_, fun b hb => ?_⟩
    · rw [← hall] at hrest
      exact List.append_right_eq_self.mp hrest
    · rw [← hzero] at hb
      exact List.eq_of_mem_replicate hb
  · rw [data_emit_of_ne hhandle, Disk.data_create_handle]
    exact hbody.symm

/-- A task that has the file open, or has closed it, can end with the rest of the stream. -/
theorem exists_placed {own : ℕ → Prop} {disk : ModelDisk} (hbuffer : env.bufferSize < blockSize)
    (hserves : Serves env file body) {i : ℕ} {t : Sync} {f : PartFile} {rest : List UInt8}
    (ht : w.syncs[i]? = some t) (hfits : Fits file body own disk t) (hflushed : t.Flushed)
    (hstream : t.stream = some (file, f)) (hbody : f.flushed ++ rest = body) :
    ∃ w', Winds env file body w w' ∧ w'.disk = replacePart (f.emit 0 w.disk rest) file := by
  have hphase : t.phase = .writing file f ∨ t.phase = .closed file f := by
    rw [Sync.stream] at hstream
    split at hstream
    case h_1 hphase =>
      cases hstream
      exact Or.inl hphase
    case h_2 hphase =>
      cases hstream
      exact Or.inr hphase
    case h_3 | h_4 => cases hstream
  rcases hphase with hphase | hphase
  · exact exists_ended hbuffer hserves le_rfl ht hphase (hflushed file f hstream) hbody
  · rw [hfits.closed f hphase, List.append_right_eq_self] at hbody
    rw [hbody, BufferedFile.emit_nil]
    exact exists_replaced ht hphase

theorem exists_torn (hbuffer : env.bufferSize < blockSize) (hserves : Serves env file body)
    (h : Sound file body w) (hw : AllFlushed w) {input : MediaInput}
    (hharm : ¬ OpensHarmlessly file body w input) :
    ∃ w' w'', mediaStep env w input = some w' ∧ Winds env file body w' w'' ∧
      ¬ WholeWhenIdle file body w'' := by
  obtain ⟨own, hk, hall⟩ := h
  unfold OpensHarmlessly at hharm
  split at hharm
  case h_2 => exact absurd trivial hharm
  case h_1 i =>
    rw [not_forall] at hharm
    obtain ⟨t, hharm⟩ := hharm
    simp only [Classical.not_imp, not_forall] at hharm
    obtain ⟨ht, hphase, t', ht', f, hstream, hbody, hharm⟩ := hharm
    obtain ⟨hown, hwriter⟩ := (hall t' ht').writer f hstream
    obtain ⟨rest, hrest⟩ := (List.prefix_append f.flushed f.pending).trans hwriter.came
    let opened : Sync :=
      { t with phase := .writing file (.opened (w.disk.handle (part file.dest))) }
    have hopen : syncStep env w.disk t .opened =
        some (opened, w.disk.create (part file.dest)) := by
      unfold syncStep
      rw [hphase]
    obtain ⟨j, hj⟩ := List.mem_iff_getElem?.mp ht'
    have hij : i ≠ j := by
      rintro rfl
      cases hj.symm.trans ht
      rw [Sync.stream, hphase] at hstream
      cases hstream
    have hstep := mediaStep_sync ht hopen
    have hflushed := allFlushed_step hbuffer hw hstep
    let w' : MediaWorld :=
      { w with syncs := w.syncs.set i opened, disk := w.disk.create (part file.dest) }
    have hj' : w'.syncs[j]? = some t' := (List.getElem?_set_ne hij).trans hj
    obtain ⟨u, hwinds, hended⟩ :=
      exists_placed hbuffer hserves hj' (hall t' ht') (hw t' ht') hstream hrest
    obtain ⟨v, hwinds', hdisk, hidle⟩ : ∃ v, Winds env file body u v ∧ v.disk = u.disk ∧
        ∀ t ∈ v.syncs, t.finished := exists_idle file body (hwinds.allFlushed hbuffer hflushed)
    refine ⟨_, v, hstep, hwinds.trans hwinds', fun hwhole => ?_⟩
    refine data_torn hk hown hrest hbody hharm (hwhole hidle _ ?_)
    rw [hdisk, hended]
    apply read_replacePart
    rw [BufferedFile.names_emit]
    exact Disk.names_create_self

end Torn

/-! ### Runs -/

/-- However the tasks go on from any point of the run with no more files opened, a file at
the destination is complete whenever no task is running. -/
def StaysWhole (env : MediaEnv) (file : MediaFile) (body : List UInt8) (start : MediaWorld)
    (inputs : List MediaInput) : Prop :=
  ∀ n rest w, Run.Along (mediaStep env) (Redelivers env file body) start (inputs.take n ++ rest) →
    (∀ i ∈ rest, MediaInput.opens i = false) →
    Run.exec (mediaStep env) start (inputs.take n ++ rest) = some w → WholeWhenIdle file body w

section Run

variable {env : MediaEnv} {file : MediaFile} {body : List UInt8} {start : MediaWorld}
  {inputs : List MediaInput}

theorem sound_exec (hserves : Serves env file body) (hstart : Sound file body start)
    (hr : Run.Along (mediaStep env) (Redelivers env file body) start inputs)
    (hg : Run.Along (mediaStep env) (OpensHarmlessly file body) start inputs) {w : MediaWorld}
    (hw : Run.exec (mediaStep env) start inputs = some w) : Sound file body w :=
  Run.exec_invariant (fun _ _ _ hi hp hs => sound_step hserves hi hp.1 hp.2 hs) hstart
    (hr.and hg) hw

theorem staysWhole_of_opensHarmlessly (hserves : Serves env file body)
    (hstart : Sound file body start)
    (hg : Run.Along (mediaStep env) (OpensHarmlessly file body) start inputs) :
    StaysWhole env file body start inputs := by
  intro n rest w hrest hopens hw
  have htake : Run.Along (mediaStep env) (OpensHarmlessly file body) start (inputs.take n) := by
    rw [← List.take_append_drop n inputs, Run.along_append_iff] at hg
    exact hg.1
  have hall : Run.Along (mediaStep env) (OpensHarmlessly file body) start
      (inputs.take n ++ rest) := by
    refine Run.along_append_iff.mpr ⟨htake, fun t _ => Run.along_of_forall _ fun i hi u => ?_⟩
    exact opensHarmlessly_of_not_opens u (hopens i hi)
  obtain ⟨own, hk, -⟩ := sound_exec hserves hstart hrest hall hw
  exact fun _ => hk.dest

/-- At the first harmful opening the tasks can go on to an incomplete file. -/
theorem opensHarmlessly_of_staysWhole (hbuffer : env.bufferSize < blockSize)
    (hserves : Serves env file body) (hstart : Sound file body start) (hflushed : AllFlushed start)
    (hr : Run.Along (mediaStep env) (Redelivers env file body) start inputs)
    (h : StaysWhole env file body start inputs) :
    Run.Along (mediaStep env) (OpensHarmlessly file body) start inputs := by
  refine Run.along_of_before fun before i after w hsplit hw hbefore => ?_
  by_contra hharm
  have htake : inputs.take (before.length + 1) = before ++ [i] := by
    rw [hsplit, List.take_length_add_append]
    rfl
  have hropen : Run.Along (mediaStep env) (Redelivers env file body) start (before ++ [i]) := by
    rw [hsplit, List.append_cons, Run.along_append_iff] at hr
    exact hr.1
  have hrbefore := (Run.along_append_iff.mp hropen).1
  have hflushedw : AllFlushed w :=
    Run.exec_preserves (fun _ _ _ hs hstep => allFlushed_step hbuffer hs hstep) hflushed hw
  obtain ⟨w', w'', hstep, ⟨rest, hrest, hopens⟩, htorn⟩ :=
    exists_torn hbuffer hserves (sound_exec hserves hstart hrbefore hbefore hw) hflushedw hharm
  have hopen : Run.exec (mediaStep env) start (before ++ [i]) = some w' := by
    rw [Run.exec_append, hw, Option.bind_some, Run.exec, hstep]
    rfl
  have hall := Delivers.append ⟨hropen, hopen⟩ hrest
  rw [← htake] at hall
  exact htorn (h (before.length + 1) rest w'' hall.redelivers hopens hall.exec)

end Run

/-- In a run of overlapping downloads in which every `.part` is opened harmlessly, a file at
the destination is complete when no task is running, however the tasks go on; and, with
blocks that are longer than a file's buffer, only in such a run. -/
theorem whole_iff_opensHarmlessly {env : MediaEnv} {file : MediaFile} {body : List UInt8}
    (hserves : Serves env file body) (heat : HeatOverride.Node) (files : EnvFiles) (path : Str)
    {disk : ModelDisk} (hdisk : ∀ bytes, disk.read file.dest = some bytes → bytes = body)
    (inputs : List MediaInput)
    (hr : Run.Along (mediaStep env) (Redelivers env file body)
      (mediaStart heat files path disk) inputs) :
    (Run.Along (mediaStep env) (OpensHarmlessly file body) (mediaStart heat files path disk)
      inputs → StaysWhole env file body (mediaStart heat files path disk) inputs) ∧
    (env.bufferSize < blockSize →
      (Run.Along (mediaStep env) (OpensHarmlessly file body) (mediaStart heat files path disk)
        inputs ↔ StaysWhole env file body (mediaStart heat files path disk) inputs)) := by
  have hstart : Sound file body (mediaStart heat files path disk) :=
    sound_start hdisk heat files path
  have hflushed : AllFlushed (mediaStart heat files path disk) := fun t ht => by cases ht
  have henough := @staysWhole_of_opensHarmlessly env file body _ inputs hserves hstart
  exact ⟨henough, fun hbuffer =>
    ⟨henough, opensHarmlessly_of_staysWhole hbuffer hserves hstart hflushed hr⟩⟩

/-! ### A queue that is delivered twice -/

/-- The body is one block and a byte. -/
def blockAndByte (block : List UInt8) : MediaEnv :=
  { mediaEnv with whole := fun _ bytes => bytes = block ++ [2] }

def modelFile : MediaFile := ⟨"http://u", "/models/m.bin"⟩

/-- The queue is delivered again after the first block. The second task empties the `.part`,
the first one ends, the second one fails. -/
def overlappingSyncs (block : List UInt8) : List MediaInput :=
  [.send, .answer queueTick, .sync 0 (.next .absent), .sync 0 .opened, .sync 0 (.chunk block),
    .send, .answer queueTick, .sync 1 (.next .absent), .sync 1 .opened, .sync 0 (.ended [2]),
    .sync 0 .replaced, .sync 1 (.failed true)]

def overlapStart : MediaWorld := mediaStart plainStart ⟨none, none⟩ modelsPath Disk.empty

section Twice

variable {block : List UInt8}

theorem serves_blockAndByte (block : List UInt8) :
    Serves (blockAndByte block) modelFile (block ++ [2]) := fun _ => decide_eq_true_iff

theorem eq_modelFile {other : MediaFile} {spec : Json} (hspec : spec ∈ [modelSpec].head?)
    (h : wanted (blockAndByte block) modelsPath spec = some other) : other = modelFile := by
  cases hspec
  exact Option.some.inj (h.symm.trans wanted_modelSpec)

theorem redelivers_next {w : MediaWorld} {i : ℕ} {root : Str} {found : Found}
    (hw : w.syncs[i]? = some ⟨root, [modelSpec], .between⟩) (hroot : root = modelsPath) :
    Redelivers (blockAndByte block) modelFile (block ++ [2]) w (.sync i (.next found)) := by
  intro t ht spec hspec other hwanted
  cases hw.symm.trans ht
  subst hroot
  exact Or.inl (eq_modelFile hspec hwanted)

def syncAt (phase : Phase) : Sync := ⟨modelsPath, [], phase⟩

/-- The first task has opened the `.part`. -/
def firstOpened : MediaWorld :=
  { answered mediaEnv { overlapStart with awaiting := true } queueTick with
    syncs := [syncAt (.writing modelFile (.opened 0))]
    disk := Disk.empty.create (part modelFile.dest) }

theorem delivers_firstOpened :
    Delivers (blockAndByte block) modelFile (block ++ [2]) overlapStart
      [.send, .answer queueTick, .sync 0 (.next .absent), .sync 0 .opened] firstOpened := by
  refine ⟨⟨trivial, fun _ h => ?_⟩, rfl⟩
  cases h
  refine ⟨trivial, fun _ h => ?_⟩
  cases h
  refine ⟨redelivers_next rfl rfl, fun _ h => ?_⟩
  cases h
  exact ⟨trivial, fun _ _ => trivial⟩

/-- It has written the first block. -/
def blockWritten (block : List UInt8) : MediaWorld :=
  { firstOpened with
    syncs := [syncAt (.writing modelFile ⟨0, block, []⟩)]
    disk := firstOpened.disk.write 0 0 0 block }

theorem delivers_blockWritten (hblock : block.length = blockSize) :
    Delivers (blockAndByte block) modelFile (block ++ [2]) firstOpened [.sync 0 (.chunk block)]
      (blockWritten block) := by
  have hbuffer : (blockAndByte block).bufferSize < blockSize := show 8192 < blockSize by decide
  have hne : block ≠ [] := by
    rintro rfl
    exact absurd hblock blockSize_pos.ne
  have hchunk : syncStep (blockAndByte block) firstOpened.disk
      (syncAt (.writing modelFile (.opened 0))) (.chunk block) =
        some (syncAt (.writing modelFile ⟨0, block, []⟩),
          (BufferedFile.opened 0).emit 0 firstOpened.disk block) :=
    syncStep_chunk (t := syncAt (.writing modelFile (.opened 0))) (f := .opened 0) hbuffer rfl rfl
      hblock
  rw [BufferedFile.emit_of_ne hne] at hchunk
  refine .of_step (fun t ht f hphase => ?_) (mediaStep_sync rfl hchunk)
  cases ht
  cases hphase
  exact List.prefix_append block [2]

theorem handle_blockWritten (block : List UInt8) :
    (blockWritten block).disk.handle (part modelFile.dest) = 0 := by
  have hname : (blockWritten block).disk.names (part modelFile.dest) = some 0 :=
    @Disk.names_create_self Str UInt8 _ Disk.empty (part modelFile.dest)
  rw [Disk.handle, hname, Option.getD_some]

theorem read_blockWritten (block : List UInt8) :
    (blockWritten block).disk.read modelFile.dest = none := by
  have hne : modelFile.dest ≠ part modelFile.dest := (part_ne_self _).symm
  have hname : firstOpened.disk.names (part modelFile.dest) = some 0 :=
    @Disk.names_create_self Str UInt8 _ Disk.empty (part modelFile.dest)
  have hwrite : (blockWritten block).disk.read modelFile.dest =
      firstOpened.disk.read modelFile.dest := Disk.read_write_of_ne hname hne ..
  rw [hwrite]
  exact Disk.read_create_of_ne hne

theorem look_of_absent {env : MediaEnv} {disk : ModelDisk} {t : Sync} {spec : Json}
    {file : MediaFile} (hw : wanted env t.root spec = some file)
    (hread : disk.read file.dest = none) :
    look env disk t spec .absent = { t with phase := .requesting file } := by
  have habsent : alreadyPresent disk file.dest .absent = false := by
    rw [alreadyPresent, hread]
    rfl
  rw [look, hw]
  dsimp only
  rw [habsent, if_neg Bool.false_ne_true]

/-- The queue has come again. -/
def secondLaunched (block : List UInt8) : MediaWorld :=
  { answered mediaEnv { blockWritten block with awaiting := true } queueTick with
    syncs := [syncAt (.writing modelFile ⟨0, block, []⟩), ⟨modelsPath, [modelSpec], .between⟩] }

theorem delivers_secondLaunched (block : List UInt8) :
    Delivers (blockAndByte block) modelFile (block ++ [2]) (blockWritten block)
      [.send, .answer queueTick] (secondLaunched block) := by
  refine ⟨⟨trivial, fun _ h => ?_⟩, rfl⟩
  cases h
  exact ⟨trivial, fun _ _ => trivial⟩

/-- The second task has come to the file. -/
def secondRequested (block : List UInt8) : MediaWorld :=
  { secondLaunched block with
    syncs := [syncAt (.writing modelFile ⟨0, block, []⟩), syncAt (.requesting modelFile)] }

theorem delivers_secondRequested (block : List UInt8) :
    Delivers (blockAndByte block) modelFile (block ++ [2]) (secondLaunched block)
      [.sync 1 (.next .absent)] (secondRequested block) := by
  have hwanted : wanted (blockAndByte block) modelsPath modelSpec = some modelFile :=
    wanted_modelSpec
  have hlook : look (blockAndByte block) (secondLaunched block).disk (syncAt .between) modelSpec
      .absent = syncAt (.requesting modelFile) :=
    look_of_absent hwanted (read_blockWritten block)
  have hnext : syncStep (blockAndByte block) (secondLaunched block).disk
      ⟨modelsPath, [modelSpec], .between⟩ (.next .absent) =
        some (syncAt (.requesting modelFile), (secondLaunched block).disk) := by
    rw [← hlook]
    rfl
  exact .of_step (redelivers_next rfl rfl) (mediaStep_sync rfl hnext)

/-- The second task has emptied the `.part`. -/
def secondOpened (block : List UInt8) : MediaWorld :=
  { secondRequested block with
    syncs := [syncAt (.writing modelFile ⟨0, block, []⟩), syncAt (.writing modelFile (.opened 0))]
    disk := (blockWritten block).disk.create (part modelFile.dest) }

theorem delivers_secondOpened (block : List UInt8) :
    Delivers (blockAndByte block) modelFile (block ++ [2]) (secondRequested block)
      [.sync 1 .opened] (secondOpened block) := by
  have hopened : syncStep (blockAndByte block) (secondRequested block).disk
      (syncAt (.requesting modelFile)) .opened =
        some (syncAt (.writing modelFile (.opened 0)), (secondOpened block).disk) := by
    rw [← handle_blockWritten block]
    rfl
  exact .of_step trivial (mediaStep_sync rfl hopened)

/-- The first task has closed the file. -/
def firstClosed (block : List UInt8) : MediaWorld :=
  { secondOpened block with
    syncs := [syncAt (.closed modelFile ⟨0, block ++ [2], []⟩),
      syncAt (.writing modelFile (.opened 0))]
    disk := (secondOpened block).disk.write 0 0 block.length [2] }

theorem delivers_firstClosed (block : List UInt8) :
    Delivers (blockAndByte block) modelFile (block ++ [2]) (secondOpened block)
      [.sync 0 (.ended [2])] (firstClosed block) := by
  have hlast : ([2] : List UInt8).length < blockSize := by decide
  have hended : syncStep (blockAndByte block) (secondOpened block).disk
      (syncAt (.writing modelFile ⟨0, block, []⟩)) (.ended [2]) =
        some (syncAt (.closed modelFile ⟨0, block ++ [2], []⟩),
          (secondOpened block).disk.write 0 0 block.length [2]) :=
    syncStep_ended (t := syncAt (.writing modelFile ⟨0, block, []⟩)) (f := ⟨0, block, []⟩) rfl rfl
      hlast (decide_eq_true rfl)
  exact .of_step trivial (mediaStep_sync rfl hended)

/-- It has put the `.part` in place, and the second one has failed. -/
def bothEnded (block : List UInt8) : MediaWorld :=
  { firstClosed block with
    syncs := [syncAt .between, syncAt .between]
    disk := dropPart (replacePart (firstClosed block).disk modelFile) modelFile true }

theorem delivers_bothEnded (block : List UInt8) :
    Delivers (blockAndByte block) modelFile (block ++ [2]) (firstClosed block)
      [.sync 0 .replaced, .sync 1 (.failed true)] (bothEnded block) :=
  ⟨⟨trivial, fun _ _ => ⟨trivial, fun _ _ => trivial⟩⟩, rfl⟩

theorem delivers_overlappingSyncs (hblock : block.length = blockSize) :
    Delivers (blockAndByte block) modelFile (block ++ [2]) overlapStart (overlappingSyncs block)
      (bothEnded block) :=
  delivers_firstOpened.append <| (delivers_blockWritten hblock).append <|
    (delivers_secondLaunched block).append <| (delivers_secondRequested block).append <|
    (delivers_secondOpened block).append <| (delivers_firstClosed block).append <|
    delivers_bothEnded block

/-- Zeros stand where the block was emptied. -/
theorem read_bothEnded (block : List UInt8) : (bothEnded block).disk.read modelFile.dest =
    some (List.replicate block.length 0 ++ [2]) := by
  have hname : (firstClosed block).disk.names (part modelFile.dest) = some 0 := by
    rw [← handle_blockWritten block]
    exact @Disk.names_create_self Str UInt8 _ (blockWritten block).disk (part modelFile.dest)
  have hread : (bothEnded block).disk.read modelFile.dest =
      (replacePart (firstClosed block).disk modelFile).read modelFile.dest :=
    Disk.read_unlink_of_ne (part_ne_self _).symm
  have hdata : (secondOpened block).disk.data 0 = [] := by
    rw [← handle_blockWritten block]
    exact @Disk.data_create_handle Str UInt8 _ (blockWritten block).disk (part modelFile.dest)
  rw [hread, read_replacePart hname, ← Disk.writeAt_nil, ← hdata]
  exact congrArg some (Disk.data_write_self ..)

end Twice

def oneBlock : List UInt8 := List.replicate blockSize 1

theorem length_oneBlock : oneBlock.length = blockSize := List.length_replicate

theorem whole_iff_opensHarmlessly_blockAndByte :
    Run.Along (mediaStep (blockAndByte oneBlock)) (OpensHarmlessly modelFile (oneBlock ++ [2]))
        overlapStart (overlappingSyncs oneBlock) ↔
      StaysWhole (blockAndByte oneBlock) modelFile (oneBlock ++ [2]) overlapStart
        (overlappingSyncs oneBlock) := by
  have hbuffer : (blockAndByte oneBlock).bufferSize < blockSize := show 8192 < blockSize by decide
  exact (whole_iff_opensHarmlessly (serves_blockAndByte oneBlock) plainStart ⟨none, none⟩
    modelsPath (fun _ h => by cases h) (overlappingSyncs oneBlock)
    (delivers_overlappingSyncs length_oneBlock).redelivers).2 hbuffer

/-- The second task has received nothing when it fails: zeros stand in the block's place. -/
theorem not_whole_overlappingSyncs :
    Run.Along (mediaStep (blockAndByte oneBlock))
      (Redelivers (blockAndByte oneBlock) modelFile (oneBlock ++ [2])) overlapStart
      (overlappingSyncs oneBlock) ∧
    ∃ w, Run.exec (mediaStep (blockAndByte oneBlock)) overlapStart (overlappingSyncs oneBlock) =
        some w ∧
      ¬ WholeWhenIdle modelFile (oneBlock ++ [2]) w := by
  have hdelivers := delivers_overlappingSyncs length_oneBlock
  refine ⟨hdelivers.redelivers, bothEnded oneBlock, hdelivers.exec, fun h => ?_⟩
  have hidle : ∀ t ∈ (bothEnded oneBlock).syncs, t.finished := by
    intro t ht
    rcases List.mem_pair.mp ht with rfl | rfl
    · exact ⟨rfl, rfl⟩
    · exact ⟨rfl, rfl⟩
  have hread := read_bothEnded oneBlock
  rw [length_oneBlock] at hread
  have hzeros : List.replicate blockSize (0 : UInt8) = oneBlock :=
    List.append_cancel_right (h hidle _ hread)
  rcases (List.replicate_inj.mp hzeros).2 with hnone | hzero
  · exact blockSize_pos.ne' hnone
  · cases hzero

end HadcdAgent.Heartbeat
