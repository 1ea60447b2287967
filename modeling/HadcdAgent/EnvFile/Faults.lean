import HadcdAgent.EnvFile
import HadcdAgent.Lib.Faults

/-!
# A rewrite of agent.env that fails

`_write_env` (`agent/provisioner.py`) writes another file and renames it;
`_apply_pending_config` (`agent/agent.py`) and `_persist_machine_id`
(`agent/vast_provider.py`) write over the file. A rewrite may stop behind any of its
steps, with an exception or with the process.
-/

namespace HadcdAgent.EnvFile

open Lib Lib.PyStr

/-! ### The source -/

/-- `/etc/hadcd-agent/agent.env`, its template, `agent.tmp` beside it and `.env`. -/
inductive EnvPath where
  | envFile
  | envExample
  | tmp
  | dotEnv
  deriving DecidableEq

abbrev EnvDisk := Disk EnvPath UInt8

inductive Writer where
  | writeEnv (updates : Dict Str Str)
  | applyPendingConfig (config : Dict Str Str)
  | persistMachineId (machineId : Str)

/-- `next((p for p in candidates if p.exists()), None)`. -/
def target (d : EnvDisk) : Option EnvPath :=
  [EnvPath.envFile, EnvPath.dotEnv].find? fun p => (d.read p).isSome

def readText (d : EnvDisk) (p : EnvPath) : Option Str := (d.read p).bind decodeUtf8

/-- A rewrite of the file found, in its place. -/
def inPlace (d : EnvDisk) (f : Str → Str) : Option (EnvPath × Str) := do
  let p ← target d
  let content ← readText d p
  pure (p, f content)

/-- `source`, read where it exists. -/
def source (d : EnvDisk) : Option (Option Str × Option Str) :=
  match d.read .envFile, d.read .envExample with
  | some bytes, _ => (decodeUtf8 bytes).map fun content => (some content, none)
  | none, some bytes => (decodeUtf8 bytes).map fun content => (none, some content)
  | none, none => some (none, none)

/-- The file that a writer opens and the text it writes there; `none` when it ends ahead
of that: there is no file, or its bytes are not UTF-8. -/
def Writer.text (d : EnvDisk) : Writer → Option (EnvPath × Str)
  | writeEnv updates =>
    (source d).map fun s => (.tmp, EnvFile.writeEnv s.1 s.2 updates)
  | applyPendingConfig config => inPlace d fun content => EnvFile.applyPendingConfig content config
  | persistMachineId machineId => inPlace d fun content => EnvFile.persistMachineId content machineId

def Writer.steps (w : Writer) (p : EnvPath) (text : Str) : List (FileStep EnvPath UInt8) :=
  match w with
  | writeEnv _ =>
    -- mkdir, write_text, chmod, rename, chown
    (.attributes :: FileStep.writeText p (encodeUtf8 text) ++ [.attributes]) ++
      .rename p .envFile :: [.attributes]
  | applyPendingConfig _ | persistMachineId _ => FileStep.writeText p (encodeUtf8 text)

/-! ### Faults -/

/-- Where a rewrite ends: behind so many of its steps, or at the encoder, which refuses a
text with a lone surrogate once the file has been truncated. -/
inductive Fault where
  | stop (done : ℕ)
  | unencodable

def Writer.upTo (w : Writer) (p : EnvPath) (text : Str) : Fault → List (FileStep EnvPath UInt8)
  | .stop done => (w.steps p text).take done
  | .unencodable => [.truncate p]

def Writer.run (d : EnvDisk) (w : Writer) : EnvDisk :=
  match w.text d with
  | none => d
  | some (p, text) => FileStep.run d (w.steps p text)

def Writer.stopped (d : EnvDisk) (w : Writer) (f : Fault) : EnvDisk :=
  match w.text d with
  | none => d
  | some (p, text) => FileStep.run d (w.upTo p text f)

/-- The env file holds its old content, or the new one where there is one. -/
def Whole (d : EnvDisk) (w : Writer) (f : Fault) : Prop :=
  ∀ p ∈ [EnvPath.envFile, EnvPath.dotEnv], (w.stopped d f).read p = d.read p ∨
    f ≠ .unencodable ∧ (w.stopped d f).read p = (w.run d).read p

/-- The rewrite ends ahead of the truncation or behind the last byte, or what it has
written is what was there. -/
def SparedInPlace (d : EnvDisk) (p : EnvPath) (text : Str) : Fault → Prop
  | .stop done =>
    done = 0 ∨ (encodeUtf8 text).length < done ∨
      d.read p = some ((encodeUtf8 text).take (done - 1))
  | .unencodable => d.read p = some []

def Spared (d : EnvDisk) (w : Writer) (f : Fault) : Prop :=
  match w with
  | .writeEnv _ => True
  | .applyPendingConfig _ | .persistMachineId _ =>
    ∀ p text, w.text d = some (p, text) → SparedInPlace d p text f

/-! ### The two disciplines -/

section

variable {d : EnvDisk} {w : Writer} {p : EnvPath} {text : Str}

theorem run_eq (h : w.text d = some (p, text)) : w.run d = FileStep.run d (w.steps p text) := by
  rw [Writer.run, h]

theorem stopped_eq (h : w.text d = some (p, text)) (f : Fault) :
    w.stopped d f = FileStep.run d (w.upTo p text f) := by
  rw [Writer.stopped, h]

theorem whole_of_none (h : w.text d = none) (f : Fault) : Whole d w f := by
  intro p _
  have hstopped : w.stopped d f = d := by rw [Writer.stopped, h]
  rw [hstopped]
  exact Or.inl rfl

theorem inPlace_eq_some {f : Str → Str} (h : inPlace d f = some (p, text)) :
    p ∈ [EnvPath.envFile, EnvPath.dotEnv] := by
  obtain ⟨q, hq, h⟩ := Option.bind_eq_some_iff.mp h
  obtain ⟨content, -, h⟩ := Option.bind_eq_some_iff.mp h
  cases h
  exact List.mem_of_find?_eq_some hq

/-- A text written over the file itself. -/
theorem whole_iff_sparedInPlace (htext : w.text d = some (p, text))
    (hp : p ∈ [EnvPath.envFile, EnvPath.dotEnv])
    (hsteps : w.steps p text = FileStep.writeText p (encodeUtf8 text)) (f : Fault) :
    Whole d w f ↔ SparedInPlace d p text f := by
  have hother : ∀ q, q ≠ p → (w.stopped d f).read q = d.read q := by
    intro q hq
    rw [stopped_eq htext]
    apply FileStep.read_run_of_not_touches
    cases f with
    | stop done =>
      intro s hs
      rw [Writer.upTo, hsteps] at hs
      exact FileStep.not_touches_writeText hq _ s (List.mem_of_mem_take hs)
    | unencodable =>
      intro s hs
      rw [List.mem_singleton.mp hs]
      exact hq
  have hself : Whole d w f ↔ (w.stopped d f).read p = d.read p ∨
      f ≠ .unencodable ∧ (w.stopped d f).read p = (w.run d).read p := by
    constructor
    · intro h
      exact h p hp
    · intro h q _
      by_cases hq : q = p
      · rw [hq]
        exact h
      · exact Or.inl (hother q hq)
  rw [hself, stopped_eq htext, run_eq htext, hsteps, FileStep.read_writeText]
  cases f with
  | stop done =>
    rw [Writer.upTo, hsteps, FileStep.read_take_writeText, SparedInPlace]
    by_cases hdone : done = 0
    · simp [hdone]
    · have hcut : some ((encodeUtf8 text).take (done - 1)) = some (encodeUtf8 text) ↔
          (encodeUtf8 text).length < done := by
        rw [Option.some.injEq, List.take_eq_self_iff]
        omega
      rw [if_neg hdone, hcut, or_iff_right hdone, eq_comm, or_comm]
      simp
  | unencodable =>
    have hempty : (FileStep.run d (w.upTo p text .unencodable)).read p = some [] :=
      FileStep.read_create d p
    rw [hempty, SparedInPlace, eq_comm]
    simp

/-- A text written beside the file and renamed. -/
theorem whole_writeEnv (d : EnvDisk) (updates : Dict Str Str) (f : Fault) :
    Whole d (.writeEnv updates) f := by
  cases htext : (Writer.writeEnv updates).text d with
  | none => exact whole_of_none htext f
  | some r =>
    obtain ⟨p, text⟩ := r
    have hp : p = .tmp := by
      obtain ⟨s, -, h⟩ := Option.map_eq_some_iff.mp htext
      exact (Prod.mk.inj h).1.symm
    subst hp
    have hapart : ∀ q ∈ [EnvPath.envFile, EnvPath.dotEnv], q ≠ EnvPath.tmp := by decide
    intro q hq
    rw [stopped_eq htext, run_eq htext]
    cases f with
    | unencodable => exact Or.inl (Disk.read_create_of_ne (hapart q hq))
    | stop done =>
      have hpre : ∀ s ∈ FileStep.attributes :: FileStep.writeText EnvPath.tmp (encodeUtf8 text) ++
          [.attributes], ¬ s.Touches q := by
        intro s hs
        rcases List.mem_cons.mp hs with rfl | hs
        · exact id
        rcases List.mem_append.mp hs with hs | hs
        · exact FileStep.not_touches_writeText (hapart q hq) _ s hs
        · exact FileStep.not_touches_attributes q s hs
      have hcut := FileStep.read_take_around (d := d) (s := .rename .tmp .envFile) hpre
        (FileStep.not_touches_attributes q) done
      dsimp only [Writer.upTo, Writer.steps]
      split_ifs at hcut
      · exact Or.inl hcut
      · exact Or.inr ⟨by simp, hcut⟩

theorem whole_iff_of_inPlace {f : Fault}
    (hp : ∀ p text, w.text d = some (p, text) → p ∈ [EnvPath.envFile, EnvPath.dotEnv])
    (hsteps : ∀ p text, w.steps p text = FileStep.writeText p (encodeUtf8 text)) :
    Whole d w f ↔ ∀ p text, w.text d = some (p, text) → SparedInPlace d p text f := by
  cases htext : w.text d with
  | none =>
    refine iff_of_true (whole_of_none htext f) ?_
    intro p text h
    cases h
  | some r =>
    obtain ⟨p, text⟩ := r
    rw [whole_iff_sparedInPlace htext (hp p text htext) (hsteps p text)]
    constructor
    · intro h q text' heq
      cases heq
      exact h
    · intro h
      exact h p text rfl

end

/-- A rewrite that ends anywhere leaves the env file whole exactly when it is spared. -/
theorem whole_iff_spared (d : EnvDisk) (w : Writer) (f : Fault) : Whole d w f ↔ Spared d w f := by
  cases w with
  | writeEnv updates => exact iff_of_true (whole_writeEnv d updates f) trivial
  | applyPendingConfig config =>
    exact whole_iff_of_inPlace (fun _ _ h => inPlace_eq_some h) fun _ _ => rfl
  | persistMachineId machineId =>
    exact whole_iff_of_inPlace (fun _ _ h => inPlace_eq_some h) fun _ _ => rfl

def enrolledDisk : EnvDisk :=
  FileStep.run Disk.empty (FileStep.writeText .envFile (encodeUtf8 "A=1\n"))

/-- The disk is full: the file has been truncated and stays empty. -/
theorem not_whole_full_disk : ¬ Whole enrolledDisk (.persistMachineId "5") (.stop 1) := by
  intro h
  rcases h .envFile (List.mem_cons_self ..) with hold | hnew
  · exact absurd hold (by decide +kernel)
  · exact absurd hnew.2 (by decide +kernel)

end HadcdAgent.EnvFile
