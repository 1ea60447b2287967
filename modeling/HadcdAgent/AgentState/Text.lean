import HadcdAgent.AgentState.Store
import HadcdAgent.Lib.JsonDoc
import HadcdAgent.Lib.Run

/-!
# The state file through crashes

`AgentState` (`agent/state.py`) over the life of a node: the process saves, records models,
is killed within a save and starts again, and a power cut may leave any beginning of the
state file, which `save` renames into place without syncing it.
-/

namespace HadcdAgent.AgentState

open Lib Lib.PyStr

/-! ### The text -/

/-- `json.dump(payload, f)` and `json.loads`. -/
def jsonText (fl : FloatText) : JsonText where
  dumps := Lib.JsonText.dumps fl Lib.JsonText.spaced 0
  loads := Lib.JsonText.loads fl

def finite : PyFloat → Option ℚ
  | .fin q => some q
  | .inf | .negInf | .nan => none

/-- The text of the setpoint is read back. -/
def Printable (fl : FloatText) (s : AgentState) : Prop :=
  ∀ q ∈ s.savedSetpointC.bind finite, Lib.JsonText.Reads fl q

instance (fl : FloatText) (s : AgentState) : Decidable (Printable fl s) :=
  inferInstanceAs (Decidable (∀ q ∈ s.savedSetpointC.bind finite, Lib.JsonText.Reads fl q))

theorem sound_float {fl : FloatText} {s : AgentState} {x : PyFloat} (h : Printable fl s)
    (hx : s.savedSetpointC = some x) : Lib.JsonText.Sound fl (.float x) := by
  cases x with
  | fin q => exact h q (by rw [hx]; rfl)
  | _ => trivial

theorem soundItems_str (fl : FloatText) (models : List Str) :
    Lib.JsonText.SoundItems fl (models.map Json.str) := by
  induction models with
  | nil => trivial
  | cons m models ih => exact ⟨trivial, ih⟩

theorem sound_payload {fl : FloatText} {s : AgentState} (h : Printable fl s)
    (nodeId nodeToken : Str) : Lib.JsonText.Sound fl (.obj (payload nodeId nodeToken s)) := by
  have hset : ∀ x, s.savedSetpointC = some x → Lib.JsonText.Sound fl (.float x) :=
    fun x => sound_float h
  have hstr := soundItems_str fl s.cachedModels
  have hkeys : ((payload nodeId nodeToken s).map Prod.fst).Sublist
      ["node_id", "node_token", "saved_setpoint_c", "cached_models"] := by
    obtain ⟨i, t, saved, models⟩ := s
    cases saved <;> cases models <;> simp [payload]
  refine ⟨hkeys.nodup (by decide), ?_⟩
  obtain ⟨i, t, saved, models⟩ := s
  cases saved with
  | none =>
    cases models with
    | nil => exact ⟨trivial, trivial, trivial⟩
    | cons m models => exact ⟨trivial, trivial, hstr, trivial⟩
  | some x =>
    cases models with
    | nil => exact ⟨trivial, trivial, hset x rfl, trivial⟩
    | cons m models => exact ⟨trivial, trivial, hset x rfl, hstr, trivial⟩

def payloadText (fl : FloatText) (nodeId nodeToken : Str) (s : AgentState) : Str :=
  (jsonText fl).dumps (.obj (payload nodeId nodeToken s))

def savedBytes (fl : FloatText) (nodeId nodeToken : Str) (s : AgentState) : List UInt8 :=
  encodeUtf8 (payloadText fl nodeId nodeToken s)

/-- A state file that has been cut off is no identity; a whole one is the state. -/
theorem load_take_savedBytes {fl : FloatText} {nodeId nodeToken : Str} {s : AgentState}
    (hp : Printable fl s) (hid : s.nodeId = some nodeId) (htoken : s.nodeToken = some nodeToken)
    (n : ℕ) :
    new.load (ofBytes (jsonText fl).loads ((savedBytes fl nodeId nodeToken s).take n)) =
      if n < (payloadText fl nodeId nodeToken s).length then .ok (false, new) else .ok (true, s) := by
  obtain ⟨text, hdecode, hloads⟩ :=
    @Lib.JsonText.loads_take_encodeUtf8 fl Lib.JsonText.spaced _ (sound_payload hp nodeId nodeToken) n
  have hbytes : ofBytes (jsonText fl).loads ((savedBytes fl nodeId nodeToken s).take n) =
      ofLoads ((jsonText fl).loads text) := by
    rw [ofBytes, savedBytes, payloadText, jsonText, hdecode]
  have htext : (jsonText fl).loads text =
      if n < (payloadText fl nodeId nodeToken s).length then .notJson
      else .value (.obj (payload nodeId nodeToken s)) := hloads
  rw [hbytes, htext]
  split_ifs with hn
  · rfl
  · exact load_save (by rw [save, hid, htoken]; rfl)

/-! ### The life of a node -/

variable {π : Type} [DecidableEq π]

/-- `log` has the states whose save went through; `whole` says that no power cut has come
since the last of them, `raised` that `load` has raised in a process that started. -/
structure Life (π : Type) where
  memory : AgentState
  disk : Disk π UInt8
  log : List AgentState
  whole : Bool
  raised : Bool

def Life.start : Life π := ⟨new, Disk.empty, [], true, false⟩

inductive LifeEvent (π : Type) where
  | become (s : AgentState)
  | save (tmp : π) (done : ℕ)
  | record (tmp : π) (model : Str) (done : ℕ)
  | restart
  | killed (tmp : π) (done : ℕ)
  | powerCut (keep : ℕ)

/-- The name that `mkstemp` finds. -/
def IsTemp (path tmp : π) (d : Disk π UInt8) : Prop := d.read tmp = none ∧ path ≠ tmp

instance (path tmp : π) (d : Disk π UInt8) : Decidable (IsTemp path tmp d) :=
  inferInstanceAs (Decidable (_ ∧ _))

def Life.stored (l : Life π) (s : AgentState) (d : Disk π UInt8) : Except SaveError Unit → Life π
  | .ok _ => { l with memory := s, disk := d, log := l.log ++ [s], whole := true }
  | .error _ => { l with memory := s, disk := d }

/-- A process that starts. -/
def Life.restart (fl : FloatText) (path : π) (l : Life π) : Life π :=
  match new.load (found (jsonText fl) path l.disk) with
  | .ok (_, s) => { l with memory := s }
  | .error _ => { l with raised := true }

/-- A save that is cut off behind some of its steps, without the clean-up. -/
def Life.torn (fl : FloatText) (path tmp : π) (done : ℕ) (l : Life π) : Life π :=
  match l.memory.nodeId, l.memory.nodeToken with
  | some nodeId, some nodeToken =>
    let steps := saveSteps (jsonText fl) path tmp nodeId nodeToken l.memory
    l.stored l.memory (FileStep.run l.disk (steps.take done))
      (if steps.length ≤ done then .ok () else .error .osError)
  | _, _ => l

def cutFile (path : π) (keep : ℕ) (d : Disk π UInt8) : Disk π UInt8 :=
  match d.read path with
  | some bytes => FileStep.run d (FileStep.writeText path (bytes.take keep))
  | none => d

def lifeStep (fl : FloatText) (path : π) (l : Life π) : LifeEvent π → Option (Life π)
  | .become s => if Printable fl s then some { l with memory := s } else none
  | .save tmp done =>
    if IsTemp path tmp l.disk then
      let r := saveTo (jsonText fl) path tmp l.memory done l.disk
      some (l.stored l.memory r.1 r.2)
    else none
  | .record tmp model done =>
    if IsTemp path tmp l.disk then
      let r := recordCachedModel (jsonText fl) path tmp l.memory model done l.disk
      some (if isNew l.memory model then l.stored r.1 r.2.1 r.2.2 else l)
    else none
  | .restart => some (l.restart fl path)
  | .killed tmp done =>
    if IsTemp path tmp l.disk then some ((l.torn fl path tmp done).restart fl path) else none
  | .powerCut keep =>
    some (Life.restart fl path { l with disk := cutFile path keep l.disk, whole := false })

/-- The file is a beginning of the text of the last state saved. -/
def Stored (fl : FloatText) (path : π) (d : Disk π UInt8) (whole : Bool) :
    Option AgentState → Prop
  | none => d.read path = none
  | some s => Printable fl s ∧ ∃ nodeId nodeToken n, s.nodeId = some nodeId ∧
    s.nodeToken = some nodeToken ∧ d.read path = some ((savedBytes fl nodeId nodeToken s).take n) ∧
      (whole = true → (payloadText fl nodeId nodeToken s).length ≤ n)

structure LifeInv (fl : FloatText) (path : π) (l : Life π) : Prop where
  printable : Printable fl l.memory
  stored : Stored fl path l.disk l.whole l.log.getLast?
  up : l.raised = false

section

variable {fl : FloatText} {path tmp : π} {l l' : Life π} {s : AgentState} {done : ℕ}

omit [DecidableEq π] in
theorem Stored.congr {d d' : Disk π UInt8} {whole : Bool} {last : Option AgentState}
    (h : Stored fl path d whole last) (hread : d'.read path = d.read path) :
    Stored fl path d' whole last := by
  cases last with
  | none => exact hread.trans h
  | some s =>
    obtain ⟨hp, nodeId, nodeToken, n, hid, htoken, hfile, hn⟩ := h
    exact ⟨hp, nodeId, nodeToken, n, hid, htoken, hread.trans hfile, hn⟩

theorem stored_cutFile {d : Disk π UInt8} {whole : Bool} {last : Option AgentState}
    (h : Stored fl path d whole last) (keep : ℕ) :
    Stored fl path (cutFile path keep d) false last := by
  cases last with
  | none =>
    have hnone : d.read path = none := h
    have hsame : cutFile path keep d = d := by rw [cutFile, hnone]
    rw [hsame]
    exact hnone
  | some s =>
    obtain ⟨hp, nodeId, nodeToken, n, hid, htoken, hfile, -⟩ := h
    refine ⟨hp, nodeId, nodeToken, min keep n, hid, htoken, ?_, nofun⟩
    rw [cutFile, hfile]
    dsimp only
    rw [FileStep.read_writeText, List.take_take]

omit [DecidableEq π] in
/-- What a start finds. -/
theorem Stored.load {d : Disk π UInt8} {whole : Bool} :
    ∀ {last : Option AgentState}, Stored fl path d whole last →
    match last with
    | none => new.load (found (jsonText fl) path d) = .ok (false, new)
    | some s => new.load (found (jsonText fl) path d) = .ok (true, s) ∨
      whole = false ∧ new.load (found (jsonText fl) path d) = .ok (false, new)
  | none, h => by
    have hnone : d.read path = none := h
    dsimp only
    rw [found, hnone]
    rfl
  | some s, h => by
    obtain ⟨hp, nodeId, nodeToken, n, hid, htoken, hfile, hn⟩ := h
    have hload := load_take_savedBytes hp hid htoken n
    dsimp only
    rw [found, hfile]
    dsimp only
    rw [hload]
    split_ifs with hcut
    · refine Or.inr ⟨?_, rfl⟩
      cases whole with
      | false => rfl
      | true => exact absurd hcut (Nat.not_lt.mpr (hn rfl))
    · exact Or.inl rfl

theorem stored_run (hp : Printable fl s) {nodeId nodeToken : Str} (hid : s.nodeId = some nodeId)
    (htoken : s.nodeToken = some nodeToken) (d : Disk π UInt8) (whole : Bool) :
    Stored fl path (FileStep.run d (saveSteps (jsonText fl) path tmp nodeId nodeToken s)) whole
      (some s) := by
  have hread : (FileStep.run d (saveSteps (jsonText fl) path tmp nodeId nodeToken s)).read path =
      some (savedBytes fl nodeId nodeToken s) := read_saveSteps nodeId nodeToken
  refine ⟨hp, nodeId, nodeToken, max (savedBytes fl nodeId nodeToken s).length
    (payloadText fl nodeId nodeToken s).length, hid, htoken, ?_, fun _ => le_max_right ..⟩
  rw [hread, List.take_of_length_le (le_max_left ..)]

theorem LifeInv.afterSave (h : LifeInv fl path l) (htemp : IsTemp path tmp l.disk)
    (hp : Printable fl s) {d' : Disk π UInt8} {r : Except SaveError Unit}
    (hsave : saveTo (jsonText fl) path tmp s done l.disk = (d', r)) :
    LifeInv fl path (l.stored s d' r) := by
  cases r with
  | ok u =>
    obtain ⟨nodeId, nodeToken, hid, htoken, -, hrun⟩ := saveTo_eq_ok hsave
    have hstored : Stored fl path d' true (some s) := hrun ▸ stored_run hp hid htoken l.disk true
    exact ⟨hp, List.getLast?_concat.symm ▸ hstored, h.up⟩
  | error e =>
    have hatomic : Atomic (jsonText fl) path tmp s l.disk := atomic ⟨tmp, htemp.1, htemp.2⟩
    have hread : d'.read path = l.disk.read path := (hatomic done d' e hsave).1
    exact ⟨hp, h.stored.congr hread, h.up⟩

theorem LifeInv.torn (h : LifeInv fl path l) (htemp : IsTemp path tmp l.disk) (done : ℕ) :
    LifeInv fl path (l.torn fl path tmp done) := by
  rw [Life.torn]
  split
  · next nodeId nodeToken hid htoken =>
      have hsteps : saveSteps (jsonText fl) path tmp nodeId nodeToken l.memory =
          FileStep.writeText tmp (savedBytes fl nodeId nodeToken l.memory) ++ [.rename tmp path] := rfl
      by_cases hall : (saveSteps (jsonText fl) path tmp nodeId nodeToken l.memory).length ≤ done
      · have hstored := @stored_run _ _ fl path tmp _ h.printable _ _ hid htoken l.disk true
        simp only [if_pos hall, List.take_of_length_le hall]
        exact ⟨h.printable, List.getLast?_concat.symm ▸ hstored, h.up⟩
      · simp only [if_neg hall]
        rw [hsteps, List.length_append, List.length_singleton] at hall
        have hbefore : done ≤
            (FileStep.writeText tmp (savedBytes fl nodeId nodeToken l.memory)).length :=
          Nat.le_of_lt_succ (Nat.lt_of_not_le hall)
        rw [hsteps, List.take_append_of_le_length hbefore]
        refine ⟨h.printable, h.stored.congr ?_, h.up⟩
        exact FileStep.read_run_of_not_touches fun step hstep =>
          FileStep.not_touches_writeText htemp.2 _ step (List.mem_of_mem_take hstep)
  · exact h

omit [DecidableEq π] in
/-- The load of a start returns, with a setpoint that can be saved again. -/
theorem LifeInv.load (h : LifeInv fl path l) :
    ∃ r, new.load (found (jsonText fl) path l.disk) = .ok r ∧ Printable fl r.2 := by
  have hnew : Printable fl new := fun _ hx => by cases hx
  have hfound := h.stored.load
  have hstored := h.stored
  cases hlast : l.log.getLast? with
  | none =>
    rw [hlast] at hfound
    exact ⟨_, hfound, hnew⟩
  | some last =>
    rw [hlast] at hfound hstored
    rcases hfound with hfound | ⟨-, hfound⟩
    · exact ⟨_, hfound, hstored.1⟩
    · exact ⟨_, hfound, hnew⟩

omit [DecidableEq π] in
theorem LifeInv.restart (h : LifeInv fl path l) : LifeInv fl path (l.restart fl path) := by
  obtain ⟨r, hload, hp⟩ := h.load
  rw [Life.restart, hload]
  exact ⟨hp, h.stored, h.up⟩

theorem lifeStep_inv {event : LifeEvent π} (h : LifeInv fl path l)
    (hl : lifeStep fl path l event = some l') : LifeInv fl path l' := by
  cases event with
  | become s =>
    simp only [lifeStep] at hl
    split_ifs at hl with hp
    cases hl
    exact ⟨hp, h.stored, h.up⟩
  | save tmp done =>
    simp only [lifeStep] at hl
    split_ifs at hl with htemp
    cases hl
    exact h.afterSave htemp h.printable rfl
  | record tmp model done =>
    simp only [lifeStep] at hl
    split_ifs at hl with htemp hnew
    · cases hl
      have hp : Printable fl (cache l.memory model) := h.printable
      have hrecord : recordCachedModel (jsonText fl) path tmp l.memory model done l.disk =
          (cache l.memory model,
            saveTo (jsonText fl) path tmp (cache l.memory model) done l.disk) := if_pos hnew
      rw [hrecord]
      exact h.afterSave htemp hp rfl
    · cases hl
      exact h
  | restart =>
    cases hl
    exact h.restart
  | killed tmp done =>
    simp only [lifeStep] at hl
    split_ifs at hl with htemp
    cases hl
    exact (h.torn htemp done).restart
  | powerCut keep =>
    have hcut : LifeInv fl path { l with disk := cutFile path keep l.disk, whole := false } :=
      ⟨h.printable, stored_cutFile h.stored keep, h.up⟩
    cases hl
    exact hcut.restart

omit [DecidableEq π] in
theorem lifeInv_start (fl : FloatText) (path : π) : LifeInv fl path Life.start :=
  ⟨fun _ hx => (nomatch hx), rfl, rfl⟩

/-- Whatever a node lives through, its state file never stops it: no start has raised, and
a start finds the state last saved, or no identity, and after no power cut the state last
saved. -/
theorem load_of_life {events : List (LifeEvent π)}
    (h : Run.exec (lifeStep fl path) Life.start events = some l) :
    l.raised = false ∧
    match l.log.getLast? with
    | none => new.load (found (jsonText fl) path l.disk) = .ok (false, new)
    | some s => new.load (found (jsonText fl) path l.disk) = .ok (true, s) ∨
      l.whole = false ∧ new.load (found (jsonText fl) path l.disk) = .ok (false, new) := by
  have hinv : LifeInv fl path l :=
    Run.exec_preserves (fun _ _ _ hi ht => lifeStep_inv hi ht) (lifeInv_start fl path) h
  exact ⟨hinv.up, hinv.stored.load⟩

end

/-- Right of the setpoints in tenths of a degree. -/
def tenths : FloatText where
  repr q := Lib.JsonText.reprInt ⌊q⌋ ++ '.' :: Nat.toDigits 10 ⌊10 * Int.fract q⌋.toNat
  float text :=
    let parts := partition '.' text
    .fin (Nat.ofDigitChars 10 parts.1 0 + Nat.ofDigitChars 10 parts.2 0 / 10)

def room : AgentState := ⟨some "n", some "t", some (.fin (43 / 2)), []⟩

/-- A model is recorded, the next save is killed, and a power cut takes the end of the file. -/
def roomLife : List (LifeEvent Str) :=
  [.become room, .save "a" 1000, .record "b" "phi3" 1000, .killed "c" 9, .powerCut 40]

theorem load_of_life_room : ∃ l : Life Str, Run.exec (lifeStep tenths "state.json".toList) Life.start
      roomLife = some l ∧ l.raised = false ∧
    match l.log.getLast? with
    | none => new.load (found (jsonText tenths) "state.json".toList l.disk) = .ok (false, new)
    | some s => new.load (found (jsonText tenths) "state.json".toList l.disk) = .ok (true, s) ∨
      l.whole = false ∧
        new.load (found (jsonText tenths) "state.json".toList l.disk) = .ok (false, new) := by
  have hsome : (Run.exec (lifeStep tenths "state.json".toList) Life.start roomLife).isSome := by
    decide +kernel
  obtain ⟨l, hl⟩ := Option.isSome_iff_exists.mp hsome
  exact ⟨l, hl, load_of_life hl⟩

end HadcdAgent.AgentState
