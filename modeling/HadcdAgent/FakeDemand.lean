import HadcdAgent.HeatSource.Reading
import HadcdAgent.Lib.JsonFile
import HadcdAgent.Lib.Published
import HadcdAgent.Lib.Run

/-!
# The fake demand and its reader

`agent/fake_demand.py` writes the BMS file that `FileHeatSource.read` (`agent/heat_source.py`)
reads in another process. Every step of the one may fall between any two of the other, and a
signal between any two steps of a write. Instants are exact.
-/

namespace HadcdAgent.FakeDemand

open Lib HeatSource

/-! ### What is written -/

inductive Mode where
  | constant
  | off
  | cycle
  deriving DecidableEq

/-- The arguments of the command line. -/
structure Options where
  mode : Mode
  measuredKw : PyFloat
  setpointC : PyFloat
  roomTempC : PyFloat
  expectedWindowSec : ℤ
  cycleOnSec : ℚ
  cycleOffSec : ℚ
  once : Bool

def payload (measuredKw setpointC roomTempC : PyFloat) (expectedWindowSec : ℤ) : Json :=
  .obj [("measured_kw", .float measuredKw), ("setpoint_c", .float setpointC),
    ("room_temp_c", .float roomTempC), ("expected_window_sec", .int expectedWindowSec)]

/-- `_demand_payload`. -/
def Options.demand (o : Options) : Json :=
  payload o.measuredKw o.setpointC o.roomTempC o.expectedWindowSec

/-- `_zero_payload`. -/
def Options.idle (o : Options) : Json := payload (.fin 0) o.setpointC o.roomTempC 0

/-- `x % y` of floats, `none` where it raises. -/
def fmod (x y : ℚ) : Option ℚ := if y = 0 then none else some (x - y * ⌊x / y⌋)

/-- The payload of a write, so long behind the beginning of `run_cycle`. -/
def Options.payloadAt (o : Options) (sinceStart : ℚ) : Option Json :=
  match o.mode with
  | .constant => some o.demand
  | .off => some o.idle
  | .cycle => (fmod sinceStart (o.cycleOnSec + o.cycleOffSec)).map fun elapsed =>
    if elapsed < o.cycleOnSec then o.demand else o.idle

/-- `--once` is for the other two modes. -/
def Options.stopsAfterOne (o : Options) : Bool := o.once && o.mode ≠ .cycle

/-- `json.dump(payload, f, indent=2)` and `f.write("\n")`. -/
def bytesOf (fl : FloatText) (v : Json) : List UInt8 :=
  PyStr.encodeUtf8 (JsonText.dumps fl (JsonText.indented 2) 0 v ++ ['\n'])

/-! ### Writer and reader -/

variable {π : Type} [DecidableEq π]

/-- The writer sleeps, has to make its temporary file, or has `todo` left to write to it; `stop`
is a write that a signal has asked for. -/
inductive Writer (π : Type) where
  | ended
  | sleeping (o : Options)
  | making (o : Options) (tmp : π) (stop : Bool) (v : Json)
  | filling (o : Options) (tmp : π) (stop : Bool) (v : Json) (todo : List UInt8)

/-- Where a read is; `late` says that it opened the file of a writer that had stopped. -/
inductive Reader where
  | idle
  | seen
  | holds (i : ℕ) (late : Bool)

/-- `launched` are the options of all writers so far, `stopped` those of a writer that has been
stopped by a signal, until the next one is launched. -/
structure World (π : Type) where
  disk : Disk π UInt8
  writer : Writer π
  launched : List Options
  stopped : Option Options
  reader : Reader
  source : FileHeatSource
  readings : List (Bool × Except PyExc HeatReading)

def World.start (defaultWindowSec : ℤ) : World π :=
  ⟨Disk.empty, .ended, [], none, .idle, ⟨defaultWindowSec, false, false⟩, []⟩

inductive Event (π : Type) where
  | launch (o : Options)
  | begin (tmp : π) (sinceStart : ℚ)
  | write
  | signal (tmp : π)
  | failed
  | killed
  | look
  | openFile
  | finish
  | agentRestart

/-- `write_payload` has returned. -/
def World.finished (w : World π) (o : Options) (stop : Bool) : World π :=
  if stop then { w with writer := .ended, stopped := some o }
  else { w with writer := if o.stopsAfterOne then .ended else .sleeping o }

/-- One step of `write_payload`. -/
def World.write (fl : FloatText) (path : π) (w : World π) : Option (World π) :=
  match w.writer with
  | .making o tmp stop v =>
    some { w with
      disk := FileStep.apply w.disk (.truncate tmp)
      writer := .filling o tmp stop v (bytesOf fl v) }
  | .filling o tmp stop v (byte :: todo) =>
    some { w with
      disk := FileStep.apply w.disk (.append tmp byte)
      writer := .filling o tmp stop v todo }
  | .filling o tmp stop _ [] =>
    some (World.finished { w with disk := FileStep.apply w.disk (.rename tmp path) } o stop)
  | .ended | .sleeping _ => none

def Writer.options : Writer π → Option Options
  | .ended => none
  | .sleeping o | .making o .. | .filling o .. => some o

def World.read (w : World π) (late : Bool) (file : BmsFile) : World π :=
  let r := w.source.read file
  { w with reader := .idle, source := r.1, readings := w.readings ++ [(late, r.2)] }

/-- The name that `mkstemp` finds. -/
def IsTemp (path tmp : π) (d : Disk π UInt8) : Prop := d.names tmp = none ∧ tmp ≠ path

instance (path tmp : π) (d : Disk π UInt8) : Decidable (IsTemp path tmp d) :=
  inferInstanceAs (Decidable (_ ∧ _))

def step (fl : FloatText) (path : π) (w : World π) : Event π → Option (World π)
  | .launch o =>
    match w.writer with
    | .ended =>
      some { w with writer := .sleeping o, launched := w.launched ++ [o], stopped := none }
    | _ => none
  | .begin tmp sinceStart =>
    match w.writer with
    | .sleeping o =>
      if IsTemp path tmp w.disk then
        match o.payloadAt sinceStart with
        | some v => some { w with writer := .making o tmp false v }
        | none => some { w with writer := .ended }
      else none
    | _ => none
  | .write => w.write fl path
  | .signal tmp =>
    match w.writer.options with
    | some o =>
      if IsTemp path tmp w.disk then some { w with writer := .making o tmp true o.idle } else none
    | none => none
  | .failed =>
    match w.writer with
    | .making .. => some { w with writer := .ended }
    | .filling _ tmp .. => some { w with writer := .ended, disk := w.disk.unlink tmp }
    | .ended | .sleeping _ => none
  | .killed => some { w with writer := .ended }
  | .look =>
    match w.reader, w.disk.names path with
    | .idle, none => some (w.read false .missing)
    | .idle, some _ => some { w with reader := .seen }
    | _, _ => none
  | .openFile =>
    match w.reader, w.disk.names path with
    | .seen, none => some (w.read false .unreadable)
    | .seen, some i => some { w with reader := .holds i w.stopped.isSome }
    | _, _ => none
  | .finish =>
    match w.reader with
    | .holds i late => some (w.read late (.text (JsonFile.parse fl (w.disk.data i))))
    | _ => none
  | .agentRestart =>
    some { w with reader := .idle, source := ⟨w.source.defaultWindowSec, false, false⟩ }

/-! ### What is read -/

/-- The texts of the floats are read back. -/
def Options.Printable (fl : FloatText) (o : Options) : Prop :=
  JsonText.Sound fl o.demand ∧ JsonText.Sound fl o.idle

def Launches (fl : FloatText) (_ : World π) : Event π → Prop
  | .launch o => o.Printable fl
  | _ => True

def demandReading (o : Options) (defaultWindowSec : ℤ) : HeatReading :=
  ⟨o.measuredKw, some o.setpointC, some o.roomTempC,
    some (if 0 < o.expectedWindowSec then o.expectedWindowSec else defaultWindowSec)⟩

def idleReading (o : Options) (defaultWindowSec : ℤ) : HeatReading :=
  ⟨.fin 0, some o.setpointC, some o.roomTempC, some defaultWindowSec⟩

theorem accept_demand (o : Options) (defaultWindowSec : ℤ) :
    accept o.demand defaultWindowSec = .ok (false, demandReading o defaultWindowSec) := rfl

theorem accept_idle (o : Options) (defaultWindowSec : ℤ) :
    accept o.idle defaultWindowSec = .ok (false, idleReading o defaultWindowSec) := rfl

/-- The file of a payload is read as its reading, and the source has nothing to complain of. -/
theorem read_text {s : FileHeatSource} {v : Json} {reading : HeatReading}
    (h : accept v s.defaultWindowSec = .ok (false, reading)) :
    s.read (.text (.value v)) = (⟨s.defaultWindowSec, false, false⟩, .ok reading) := by
  rw [FileHeatSource.read, BmsFile.loads, Loads.result]
  dsimp only
  rw [h]

theorem parse_bytesOf {fl : FloatText} {v : Json} (h : JsonText.Sound fl v) :
    JsonFile.parse fl (bytesOf fl v) = .value v :=
  JsonFile.parse_dumps h rfl

theorem read_demand {fl : FloatText} {o : Options} (h : o.Printable fl) (s : FileHeatSource) :
    s.read (.text (JsonFile.parse fl (bytesOf fl o.demand))) =
      (⟨s.defaultWindowSec, false, false⟩, .ok (demandReading o s.defaultWindowSec)) := by
  rw [parse_bytesOf h.1, read_text (accept_demand o s.defaultWindowSec)]

theorem read_idle {fl : FloatText} {o : Options} (h : o.Printable fl) (s : FileHeatSource) :
    s.read (.text (JsonFile.parse fl (bytesOf fl o.idle))) =
      (⟨s.defaultWindowSec, false, false⟩, .ok (idleReading o s.defaultWindowSec)) := by
  rw [parse_bytesOf h.2, read_text (accept_idle o s.defaultWindowSec)]

/-! ### The invariant -/

/-- A payload of one of the writers. -/
def Issued (fl : FloatText) (launched : List Options) (v : Json) : Prop :=
  ∃ o ∈ launched, o.Printable fl ∧ (v = o.demand ∨ v = o.idle)

def IssuedIdle (fl : FloatText) (launched : List Options) (v : Json) : Prop :=
  ∃ o ∈ launched, o.Printable fl ∧ v = o.idle

/-- What is written is a payload of this writer, the idle one behind a signal. -/
structure Writes (fl : FloatText) (path : π) (launched : List Options) (o : Options) (tmp : π)
    (stop : Bool) (v : Json) : Prop where
  launched : o ∈ launched
  printable : o.Printable fl
  apart : tmp ≠ path
  payload : v = o.demand ∨ v = o.idle
  idle : stop = true → v = o.idle

def WriterFine (fl : FloatText) (path : π) (launched : List Options) (d : Disk π UInt8) :
    Writer π → Prop
  | .ended => True
  | .sleeping o => o ∈ launched ∧ o.Printable fl
  | .making o tmp stop v => Writes fl path launched o tmp stop v
  | .filling o tmp stop v todo => Writes fl path launched o tmp stop v ∧
    ∃ done, d.read tmp = some done ∧ done ++ todo = bytesOf fl v

def ReaderFine (fl : FloatText) (path : π) (launched : List Options) (d : Disk π UInt8) :
    Reader → Prop
  | .idle => True
  | .seen => d.names path ≠ none
  | .holds i late => Untied path d i ∧
    ∃ v, Issued fl launched v ∧ d.data i = bytesOf fl v ∧ (late = true → IssuedIdle fl launched v)

/-- A reading of a payload, the idle one where a writer had been stopped before; or there was no
file yet. -/
def Fair (launched : List Options) (defaultWindowSec : ℤ) :
    Bool × Except PyExc HeatReading → Prop
  | (true, r) => ∃ o ∈ launched, r = .ok (idleReading o defaultWindowSec)
  | (false, r) => r = .ok zero ∨ ∃ o ∈ launched,
    r = .ok (demandReading o defaultWindowSec) ∨ r = .ok (idleReading o defaultWindowSec)

structure Inv (fl : FloatText) (path : π) (defaultWindowSec : ℤ) (w : World π) : Prop where
  file : ∀ bytes, w.disk.read path = some bytes →
    ∃ v, Issued fl w.launched v ∧ bytes = bytesOf fl v
  stopped : ∀ o, w.stopped = some o →
    IssuedIdle fl w.launched o.idle ∧ w.disk.read path = some (bytesOf fl o.idle) ∧
      w.writer = .ended
  writer : WriterFine fl path w.launched w.disk w.writer
  reader : ReaderFine fl path w.launched w.disk w.reader
  window : w.source.defaultWindowSec = defaultWindowSec
  quiet : w.source.warnedBad = false
  readings : ∀ r ∈ w.readings, Fair w.launched defaultWindowSec r

section

variable {fl : FloatText} {path tmp : π} {launched : List Options} {defaultWindowSec : ℤ}
  {w w' : World π} {o : Options} {d : Disk π UInt8} {v : Json}

omit [DecidableEq π] in
theorem inv_start : Inv fl path defaultWindowSec (World.start defaultWindowSec) where
  file bytes h := absurd h (Option.some_ne_none bytes).symm
  stopped o h := absurd h (Option.some_ne_none o).symm
  writer := trivial
  reader := trivial
  window := rfl
  quiet := rfl
  readings _ h := absurd h List.not_mem_nil

theorem IssuedIdle.issued (h : IssuedIdle fl launched v) : Issued fl launched v := by
  obtain ⟨o, ho, hp, hv⟩ := h
  exact ⟨o, ho, hp, .inr hv⟩

theorem Issued.launch (h : Issued fl launched v) (o : Options) : Issued fl (launched ++ [o]) v := by
  obtain ⟨p, hp, hrest⟩ := h
  exact ⟨p, List.mem_append_left _ hp, hrest⟩

theorem IssuedIdle.launch (h : IssuedIdle fl launched v) (o : Options) :
    IssuedIdle fl (launched ++ [o]) v := by
  obtain ⟨p, hp, hrest⟩ := h
  exact ⟨p, List.mem_append_left _ hp, hrest⟩

omit [DecidableEq π] in
theorem Writes.issued {stop : Bool} (h : Writes fl path launched o tmp stop v) :
    Issued fl launched v :=
  ⟨o, h.launched, h.printable, h.payload⟩

theorem payloadAt_eq_some {sinceStart : ℚ} (h : o.payloadAt sinceStart = some v) :
    v = o.demand ∨ v = o.idle := by
  rw [Options.payloadAt] at h
  split at h
  · exact .inl (Option.some.inj h).symm
  · exact .inr (Option.some.inj h).symm
  · obtain ⟨elapsed, -, rfl⟩ := Option.map_eq_some_iff.mp h
    split_ifs
    · exact .inl rfl
    · exact .inr rfl

/-! ### What the writer's steps do to the reader -/

theorem ReaderFine.apply {r : Reader} {s : FileStep π UInt8} (h : ReaderFine fl path launched d r)
    (hs : s.Beside path) (hnames : d.names path ≠ none → (FileStep.apply d s).names path ≠ none) :
    ReaderFine fl path launched (FileStep.apply d s) r := by
  cases r with
  | idle => trivial
  | seen => exact hnames h
  | holds i late =>
    obtain ⟨huntied, v, hv, hdata, hlate⟩ := h
    obtain ⟨hafter, hsame⟩ := huntied.apply hs
    exact ⟨hafter, v, hv, hsame.trans hdata, hlate⟩

theorem ReaderFine.unlink {r : Reader} (h : ReaderFine fl path launched d r) (hp : tmp ≠ path) :
    ReaderFine fl path launched (d.unlink tmp) r := by
  cases r with
  | idle => trivial
  | seen => exact fun hnone => h ((Disk.names_unlink_of_ne hp.symm).symm.trans hnone)
  | holds i late =>
    obtain ⟨huntied, hrest⟩ := h
    exact ⟨huntied.unlink tmp, hrest⟩

omit [DecidableEq π] in
theorem ReaderFine.launch {r : Reader} (h : ReaderFine fl path launched d r) (o : Options) :
    ReaderFine fl path (launched ++ [o]) d r := by
  cases r with
  | idle => trivial
  | seen => exact h
  | holds i late =>
    obtain ⟨huntied, v, hv, hdata, hlate⟩ := h
    exact ⟨huntied, v, hv.launch o, hdata, fun h => (hlate h).launch o⟩

theorem Fair.launch {r : Bool × Except PyExc HeatReading} (h : Fair launched defaultWindowSec r)
    (o : Options) : Fair (launched ++ [o]) defaultWindowSec r := by
  obtain ⟨late, r⟩ := r
  cases late with
  | true =>
    obtain ⟨p, hp, hr⟩ := h
    exact ⟨p, List.mem_append_left _ hp, hr⟩
  | false => exact h.imp_right fun ⟨p, hp, hr⟩ => ⟨p, List.mem_append_left _ hp, hr⟩

omit [DecidableEq π] in
/-- The writer goes on without a step on disk. -/
theorem Inv.setWriter (h : Inv fl path defaultWindowSec w) {writer : Writer π}
    (hwriter : WriterFine fl path w.launched w.disk writer)
    (hstopped : w.stopped ≠ none → writer = .ended) :
    Inv fl path defaultWindowSec { w with writer := writer } :=
  ⟨h.file, fun o ho => ⟨(h.stopped o ho).1, (h.stopped o ho).2.1, hstopped (by rw [ho]; nofun)⟩,
    hwriter, h.reader, h.window, h.quiet, h.readings⟩

omit [DecidableEq π] in
theorem Inv.stopped_eq_none (h : Inv fl path defaultWindowSec w) (hwriter : w.writer ≠ .ended) :
    w.stopped = none := by
  cases hs : w.stopped with
  | none => rfl
  | some o => exact absurd (h.stopped o hs).2.2 hwriter

omit [DecidableEq π] in
theorem ne_ended_of_filling {stop : Bool} {todo : List UInt8}
    (hw : w.writer = .filling o tmp stop v todo) : w.writer ≠ .ended := by
  rw [hw]
  intro hended
  cases hended

omit [DecidableEq π] in
theorem ne_ended_of_making {stop : Bool} (hw : w.writer = .making o tmp stop v) :
    w.writer ≠ .ended := by
  rw [hw]
  intro hended
  cases hended

/-! ### One step -/

/-- A step on a temporary file leaves the file alone. -/
theorem Inv.applyTemp (h : Inv fl path defaultWindowSec w) (hwriter : w.writer ≠ .ended)
    {s : FileStep π UInt8} (hs : s.Beside path) (htouches : ¬ s.Touches path)
    (hnames : (FileStep.apply w.disk s).names path = w.disk.names path) {writer : Writer π}
    (hfine : WriterFine fl path w.launched (FileStep.apply w.disk s) writer) :
    Inv fl path defaultWindowSec { w with disk := FileStep.apply w.disk s, writer := writer } where
  file bytes hbytes := h.file bytes ((FileStep.read_apply_of_not_touches htouches).symm.trans hbytes)
  stopped o ho := by
    rw [h.stopped_eq_none hwriter] at ho
    cases ho
  writer := hfine
  reader := h.reader.apply hs fun hnone => hnames ▸ hnone
  window := h.window
  quiet := h.quiet
  readings := h.readings

theorem Inv.truncate (h : Inv fl path defaultWindowSec w) {stop : Bool}
    (hw : w.writer = .making o tmp stop v) :
    Inv fl path defaultWindowSec { w with
      disk := FileStep.apply w.disk (.truncate tmp)
      writer := .filling o tmp stop v (bytesOf fl v) } := by
  have hwrites : Writes fl path w.launched o tmp stop v := by
    have := h.writer
    rwa [hw] at this
  have hbeside : (FileStep.truncate tmp : FileStep π UInt8).Beside path := hwrites.apart
  refine h.applyTemp (ne_ended_of_making hw) hbeside hwrites.apart.symm
    (Disk.names_create_of_ne hwrites.apart.symm) ⟨hwrites, [], ?_, rfl⟩
  exact FileStep.read_create w.disk tmp

theorem Inv.append (h : Inv fl path defaultWindowSec w) {stop : Bool} {byte : UInt8}
    {todo : List UInt8} (hw : w.writer = .filling o tmp stop v (byte :: todo)) :
    Inv fl path defaultWindowSec { w with
      disk := FileStep.apply w.disk (.append tmp byte)
      writer := .filling o tmp stop v todo } := by
  have hfine := h.writer
  rw [hw] at hfine
  obtain ⟨hwrites, done, hdone, hbytes⟩ := hfine
  have hnames : (FileStep.apply w.disk (.append tmp byte)).names path = w.disk.names path := by
    rw [FileStep.apply]
    cases w.disk.names tmp <;> rfl
  have hbeside : (FileStep.append tmp byte : FileStep π UInt8).Beside path := hwrites.apart
  refine h.applyTemp (ne_ended_of_filling hw) hbeside hwrites.apart.symm hnames
    ⟨hwrites, done ++ [byte], ?_, ?_⟩
  · rw [FileStep.read_append, hdone, Option.map_some]
  · rw [List.append_assoc, List.singleton_append, hbytes]

/-- The rename is the step that the reader sees. -/
theorem Inv.rename (h : Inv fl path defaultWindowSec w) {stop : Bool}
    (hw : w.writer = .filling o tmp stop v []) :
    Inv fl path defaultWindowSec
      (World.finished { w with disk := FileStep.apply w.disk (.rename tmp path) } o stop) := by
  have hfine := h.writer
  rw [hw] at hfine
  obtain ⟨hwrites, done, hdone, hbytes⟩ := hfine
  rw [List.append_nil] at hbytes
  have hread : (FileStep.apply w.disk (.rename tmp path)).read path = some (bytesOf fl v) := by
    rw [← hbytes, ← hdone]
    exact Disk.read_rename_target
  have hfile : ∀ bytes, (FileStep.apply w.disk (.rename tmp path)).read path = some bytes →
      ∃ v, Issued fl w.launched v ∧ bytes = bytesOf fl v := by
    intro bytes hb
    rw [hread] at hb
    exact ⟨v, hwrites.issued, (Option.some.inj hb).symm⟩
  have hnames : (FileStep.apply w.disk (.rename tmp path)).names path ≠ none := by
    intro hnone
    rw [Disk.read, hnone] at hread
    cases hread
  have hreader : ReaderFine fl path w.launched (FileStep.apply w.disk (.rename tmp path)) w.reader :=
    h.reader.apply hwrites.apart fun _ => hnames
  have hstopped := h.stopped_eq_none (ne_ended_of_filling hw)
  cases stop with
  | false =>
    refine ⟨hfile, fun p hp => absurd (hp.symm.trans hstopped) (Option.some_ne_none p), ?_, hreader,
      h.window, h.quiet, h.readings⟩
    change WriterFine fl path w.launched _ (if o.stopsAfterOne then .ended else .sleeping o)
    split_ifs
    · trivial
    · exact ⟨hwrites.launched, hwrites.printable⟩
  | true =>
    refine ⟨hfile, fun p hp => ?_, trivial, hreader, h.window, h.quiet, h.readings⟩
    cases hp
    have hidle : v = o.idle := hwrites.idle rfl
    exact ⟨⟨o, hwrites.launched, hwrites.printable, rfl⟩, hidle ▸ hread, rfl⟩

theorem Inv.unlink (h : Inv fl path defaultWindowSec w) {stop : Bool} {todo : List UInt8}
    (hw : w.writer = .filling o tmp stop v todo) :
    Inv fl path defaultWindowSec { w with writer := .ended, disk := w.disk.unlink tmp } := by
  have hfine := h.writer
  rw [hw] at hfine
  have hapart : path ≠ tmp := hfine.1.apart.symm
  have hread : (w.disk.unlink tmp).read path = w.disk.read path := Disk.read_unlink_of_ne hapart
  exact ⟨fun bytes hb => h.file bytes (hread.symm.trans hb),
    fun p hp => absurd (hp.symm.trans (h.stopped_eq_none (ne_ended_of_filling hw)))
      (Option.some_ne_none p), trivial,
    h.reader.unlink hapart.symm, h.window, h.quiet, h.readings⟩

omit [DecidableEq π] in
theorem WriterFine.options {writer : Writer π} (h : WriterFine fl path launched d writer)
    (ho : writer.options = some o) : o ∈ launched ∧ o.Printable fl := by
  cases writer with
  | ended => cases ho
  | sleeping p =>
    cases ho
    exact h
  | making p =>
    cases ho
    exact ⟨h.launched, h.printable⟩
  | filling p =>
    cases ho
    exact ⟨h.1.launched, h.1.printable⟩

theorem Inv.write (h : Inv fl path defaultWindowSec w) (hw : w.write fl path = some w') :
    Inv fl path defaultWindowSec w' := by
  rw [World.write] at hw
  split at hw
  · next heq =>
    cases hw
    exact h.truncate heq
  · next heq =>
    cases hw
    exact h.append heq
  · next heq =>
    cases hw
    exact h.rename heq
  · cases hw
  · cases hw

omit [DecidableEq π] in
theorem Inv.launch (h : Inv fl path defaultWindowSec w) (hp : o.Printable fl) :
    Inv fl path defaultWindowSec
      { w with writer := .sleeping o, launched := w.launched ++ [o], stopped := none } where
  file bytes hbytes := by
    obtain ⟨v, hv, hb⟩ := h.file bytes hbytes
    exact ⟨v, hv.launch o, hb⟩
  stopped o h := absurd h (Option.some_ne_none o).symm
  writer := ⟨List.mem_append_right _ (List.mem_singleton_self o), hp⟩
  reader := h.reader.launch o
  window := h.window
  quiet := h.quiet
  readings r hr := (h.readings r hr).launch o

omit [DecidableEq π] in
/-- A read that ends with a fair reading and nothing to complain of. -/
theorem Inv.read (h : Inv fl path defaultWindowSec w) {late : Bool} {file : BmsFile}
    (hwindow : (w.source.read file).1.defaultWindowSec = w.source.defaultWindowSec)
    (hquiet : (w.source.read file).1.warnedBad = false)
    (hfair : Fair w.launched defaultWindowSec (late, (w.source.read file).2)) :
    Inv fl path defaultWindowSec (w.read late file) := by
  refine ⟨h.file, h.stopped, h.writer, trivial, hwindow.trans h.window, hquiet, fun r hr => ?_⟩
  rcases List.mem_append.mp hr with hr | hr
  · exact h.readings r hr
  · rw [List.mem_singleton.mp hr]
    exact hfair

omit [DecidableEq π] in
theorem Inv.finish (h : Inv fl path defaultWindowSec w) {i : ℕ} {late : Bool}
    (hr : w.reader = .holds i late) :
    Inv fl path defaultWindowSec (w.read late (.text (JsonFile.parse fl (w.disk.data i)))) := by
  have hfine := h.reader
  rw [hr] at hfine
  obtain ⟨-, v, hv, hdata, hlate⟩ := hfine
  rw [hdata]
  cases late with
  | true =>
    obtain ⟨p, hp, hprint, rfl⟩ := hlate rfl
    have hread := read_idle hprint w.source
    exact h.read (by rw [hread]) (by rw [hread]) ⟨p, hp, by rw [hread, h.window]⟩
  | false =>
    obtain ⟨p, hp, hprint, rfl | rfl⟩ := hv
    · have hread := read_demand hprint w.source
      exact h.read (by rw [hread]) (by rw [hread])
        (.inr ⟨p, hp, .inl (by rw [hread, h.window])⟩)
    · have hread := read_idle hprint w.source
      exact h.read (by rw [hread]) (by rw [hread])
        (.inr ⟨p, hp, .inr (by rw [hread, h.window])⟩)

omit [DecidableEq π] in
theorem Inv.look (h : Inv fl path defaultWindowSec w) :
    Inv fl path defaultWindowSec (w.read false .missing) :=
  h.read rfl h.quiet (.inl rfl)

omit [DecidableEq π] in
theorem Inv.openFile (h : Inv fl path defaultWindowSec w) {i : ℕ}
    (hi : w.disk.names path = some i) :
    Inv fl path defaultWindowSec { w with reader := .holds i w.stopped.isSome } := by
  have hread : w.disk.read path = some (w.disk.data i) := by rw [Disk.read, hi, Option.map_some]
  obtain ⟨v, hv, hdata⟩ := h.file _ hread
  refine ⟨h.file, h.stopped, h.writer, ⟨untied_of_names hi, ?_⟩, h.window, h.quiet, h.readings⟩
  cases hs : w.stopped with
  | none => exact ⟨v, hv, hdata, fun hlate => absurd hlate Bool.false_ne_true⟩
  | some o =>
    obtain ⟨hidle, hfile, -⟩ := h.stopped o hs
    exact ⟨o.idle, hidle.issued, Option.some.inj (hread.symm.trans hfile), fun _ => hidle⟩

theorem inv_step {event : Event π} (h : Inv fl path defaultWindowSec w)
    (hg : Launches fl w event) (hw : step fl path w event = some w') :
    Inv fl path defaultWindowSec w' := by
  cases event with
  | launch o =>
    simp only [step] at hw
    split at hw
    · cases hw
      exact h.launch hg
    · cases hw
  | begin tmp sinceStart =>
    simp only [step] at hw
    split at hw
    · next o heq =>
      split_ifs at hw with htemp
      have hfine := h.writer
      rw [heq] at hfine
      have hstopped := h.stopped_eq_none (by rw [heq]; nofun)
      split at hw
      · next v hv =>
        cases hw
        exact h.setWriter ⟨hfine.1, hfine.2, htemp.2, payloadAt_eq_some hv, nofun⟩
          fun hs => absurd hstopped hs
      · cases hw
        exact h.setWriter trivial fun _ => rfl
    · cases hw
  | write => exact h.write hw
  | signal tmp =>
    simp only [step] at hw
    split at hw
    · next o ho =>
      split_ifs at hw with htemp
      cases hw
      have hlaunched : o ∈ w.launched ∧ o.Printable fl := h.writer.options ho
      have hstopped : w.stopped = none := h.stopped_eq_none (by intro he; rw [he] at ho; cases ho)
      exact h.setWriter ⟨hlaunched.1, hlaunched.2, htemp.2, .inr rfl, fun _ => rfl⟩
        fun hs => absurd hstopped hs
    · cases hw
  | failed =>
    simp only [step] at hw
    split at hw
    · cases hw
      exact h.setWriter trivial fun _ => rfl
    · next heq =>
      cases hw
      exact h.unlink heq
    · cases hw
    · cases hw
  | killed =>
    cases hw
    exact h.setWriter trivial fun _ => rfl
  | look =>
    simp only [step] at hw
    split at hw
    · cases hw
      exact h.look
    · next i hi =>
      cases hw
      exact ⟨h.file, h.stopped, h.writer, by rw [ReaderFine, hi]; nofun, h.window, h.quiet,
        h.readings⟩
    · cases hw
  | openFile =>
    simp only [step] at hw
    split at hw
    · next hr hnone =>
      have hfine := h.reader
      rw [hr] at hfine
      exact absurd hnone hfine
    · next i hr hi =>
      cases hw
      exact h.openFile hi
    · cases hw
  | finish =>
    simp only [step] at hw
    split at hw
    · next i late hr =>
      cases hw
      exact h.finish hr
    · cases hw
  | agentRestart =>
    cases hw
    exact ⟨h.file, h.stopped, h.writer, trivial, h.window, rfl, h.readings⟩

/-- **Whatever falls between the steps of the two, a read finds no file yet or a payload as it
was written, and never complains of the file. Once a signal has stopped the writer, what is
opened until the next one is launched reads as no demand.** -/
theorem fair_of_exec {events : List (Event π)}
    (hlaunches : Run.Along (step fl path) (Launches fl) (World.start defaultWindowSec) events)
    (hrun : Run.exec (step fl path) (World.start defaultWindowSec) events = some w) :
    w.source.warnedBad = false ∧ ∀ r ∈ w.readings, Fair w.launched defaultWindowSec r := by
  have hinv : Inv fl path defaultWindowSec w :=
    Run.exec_invariant (fun _ _ _ h hg hw => inv_step h hg hw) inv_start hlaunches hrun
  exact ⟨hinv.quiet, hinv.readings⟩

end

def zeroOnly : FloatText := ⟨fun _ => "0.0", fun _ => .fin 0⟩

def unbounded : Options := ⟨.constant, .inf, .fin 0, .fin 0, 1800, 300, 120, false⟩

theorem printable_unbounded : unbounded.Printable zeroOnly := by
  have hzero : JsonText.Reads zeroOnly 0 := by decide +kernel
  exact ⟨⟨by decide, trivial, hzero, hzero, trivial, trivial⟩,
    ⟨by decide, hzero, hzero, hzero, trivial, trivial⟩⟩

/-- A signal comes amid the first write, and then the file is read. -/
def stoppedEarly : List (Event Str) :=
  [.look, .launch unbounded, .begin "a" 0, .write, .write, .write, .signal "b"] ++
    List.replicate ((bytesOf zeroOnly unbounded.idle).length + 2) .write ++
      [.look, .openFile, .finish]

theorem fair_of_exec_stoppedEarly : ∃ w,
    Run.exec (step zeroOnly ("bms.json" : Str)) (World.start 900) stoppedEarly = some w ∧
      w.readings.length = 2 ∧ ∀ r ∈ w.readings, Fair w.launched 900 r := by
  have hrun : (Run.exec (step zeroOnly ("bms.json" : Str)) (World.start 900) stoppedEarly).any
      (fun w => w.readings.length = 2) = true := by decide +kernel
  obtain ⟨w, hw, hlength⟩ := (Option.any_eq_true _ _).mp hrun
  have hlaunches : Run.Along (step zeroOnly ("bms.json" : Str)) (Launches zeroOnly)
      (World.start 900) stoppedEarly := by
    refine Run.along_of_forall _ fun event hevent w => ?_
    cases event with
    | launch o =>
      have ho : o = unbounded := by simpa [stoppedEarly, List.mem_replicate] using hevent
      exact ho ▸ printable_unbounded
    | _ => trivial
  exact ⟨w, hw, of_decide_eq_true hlength, (fair_of_exec hlaunches hw).2⟩

end HadcdAgent.FakeDemand
