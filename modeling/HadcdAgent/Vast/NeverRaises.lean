import HadcdAgent.Vast.Cli

/-!
# When a tick of the provider raises

`VastProvider.update` (`agent/vast_provider.py`) on any schedule and any end of the
CLI's runs. `Agent._vast_loop` awaits it outside of any `try`.
-/

namespace HadcdAgent.Vast

open Lib

/-! ### Runs on raw input -/

inductive RawInput where
  | setOverride (override : Override)
  | update (t : RawTick)

def rawStep (py : Python) (machineId : Str) (p : VastProvider) : RawInput → VastProvider
  | .setOverride override => setOverride p override
  | .update t => (update p (tickOf py machineId t)).provider

def UpdateReturns (py : Python) (machineId : Str) (p : VastProvider) : RawInput → Prop
  | .setOverride _ => True
  | .update t => (update p (tickOf py machineId t)).raised = false

/-! ### What the methods can read -/

/-- The command ran with a decodable output, was not found, or timed out. -/
def Spawns : CliRun → Prop
  | .completed _ .notUtf8 | .raises _ => False
  | .completed _ _ | .fileNotFound | .timeoutExpired => True

def Priced (py : Python) (machineId : Str) : Json → Prop
  | .obj kvs => entryId py kvs = machineId ∧ entryPrice kvs ≠ .null
  | _ => False

/-- Up to the first priced entry of the machine all entries are objects, and that
one's price is no integer beyond the floats. -/
def EntriesReadable (py : Python) (machineId : Str) (entries : List Json) : Prop :=
  ∀ before m after, entries = before ++ m :: after → (∀ x ∈ before, ¬ Priced py machineId x) →
    ∃ kvs, m = .obj kvs ∧ (Priced py machineId m → (entryPrice kvs).isHuge = false)

/-- A list, or an object whose `machines` is a readable list, an empty text or
object, or nothing that can be gone through. -/
def MachinesReadable (py : Python) (machineId : Str) : Json → Prop
  | .arr entries => EntriesReadable py machineId entries
  | .obj kvs =>
    match lookup ("machines" : Str) kvs with
    | some (.arr entries) => EntriesReadable py machineId entries
    | some (.obj entries) => entries = []
    | some (.str text) => text = []
    | _ => True
  | _ => False

def PriceReadable (py : Python) (machineId : Str) : CliRun → Prop
  | .completed _ .notUtf8 | .raises _ => False
  | .completed code (.value data) => code = 0 → MachinesReadable py machineId data
  | .completed code .tooDeep => code ≠ 0
  | .completed _ .notJson | .completed _ .tooManyDigits | .fileNotFound | .timeoutExpired => True

def CountReadable : CliRun → Prop
  | .completed _ .notUtf8 | .raises _ => False
  | .completed code .tooManyDigits | .completed code .tooDeep => code ≠ 0
  | .completed _ (.value _) | .completed _ .notJson | .fileNotFound | .timeoutExpired => True

def Succeeds : CliRun → Prop
  | .completed code _ => code = 0
  | .fileNotFound | .timeoutExpired | .raises _ => False

def BranchReadable (py : Python) (machineId : Str) (p : VastProvider) (t : RawTick) : Action → Prop
  | .idle _ => True
  | .list => Spawns t.list ∧
      (Succeeds t.list → p.listedAt = none → PriceReadable py machineId t.machines)
  | .unlist => Spawns t.unlist
  | .drain => CountReadable t.instances

/-- An enabled provider is given an object, and the branch that it takes is readable. -/
structure Readable (py : Python) (machineId : Str) (p : VastProvider) (t : RawTick) : Prop where
  schedule : p.enabled = true → ∃ kvs, t.schedule = .obj kvs
  branch : BranchReadable py machineId p t (action p (scheduleOf py t.schedule) t.now)

def ReadableAt (py : Python) (machineId : Str) (p : VastProvider) : RawInput → Prop
  | .setOverride _ => True
  | .update t => Readable py machineId p t

/-! ### The search for the price -/

section Price

variable {py : Python} {machineId : Str}

theorem entriesReadable_nil : EntriesReadable py machineId [] := by
  intro before m after h
  simp at h

theorem entriesReadable_cons {m : Json} {rest : List Json} :
    EntriesReadable py machineId (m :: rest) ↔
      (∃ kvs, m = .obj kvs ∧ (Priced py machineId m → (entryPrice kvs).isHuge = false)) ∧
      (¬ Priced py machineId m → EntriesReadable py machineId rest) := by
  constructor
  · intro h
    refine ⟨h [] m rest rfl fun _ hx => (nomatch hx), fun hm before x after heq hbefore => ?_⟩
    refine h (m :: before) x after (by rw [heq, List.cons_append]) fun y hy => ?_
    rcases List.mem_cons.mp hy with rfl | hy
    · exact hm
    · exact hbefore y hy
  · rintro ⟨hm, hrest⟩ before x after heq hbefore
    cases before with
    | nil =>
      cases heq
      exact hm
    | cons y before =>
      obtain ⟨rfl, rfl⟩ := List.cons.inj heq
      exact hrest (hbefore m (List.mem_cons_self ..)) before x after rfl
        fun z hz => hbefore z (List.mem_cons_of_mem m hz)

/-- The exceptions that leave the `try` of `get_listing_price`. -/
def Escapes (x : Except PyExc (Option PyFloat)) : Prop := ∃ e, x = .error e ∧ priceCaught e = false

theorem escapes_float {price : Json} :
    Escapes ((py.float price).map some) ↔ price.isHuge = true := by
  cases hh : price.isHuge with
  | true =>
    have hover := Json.optionalFloat_of_isHuge hh
    refine iff_of_true ⟨.overflowError, ?_, rfl⟩ rfl
    cases price with
    | int n => simp [Python.float, hover, Except.map]
    | _ => cases hh
  | false =>
    obtain ⟨y, hy⟩ := Json.optionalFloat_of_not_isHuge hh
    refine iff_of_false ?_ (by simp)
    rintro ⟨e, he, hcaught⟩
    cases price with
    | str s =>
      cases hs : py.floatOfStr s with
      | some x => simp [Python.float, hs, Except.map] at he
      | none =>
        simp only [Python.float, hs, Except.map, Except.error.injEq] at he
        subst he
        cases hcaught
    | _ =>
      cases y with
      | some x => simp [Python.float, hy, Except.map] at he
      | none =>
        simp only [Python.float, hy, Except.map, Except.error.injEq] at he
        subst he
        cases hcaught

theorem findPrice_priced {kvs : List (Str × Json)} {rest : List Json}
    (h : Priced py machineId (.obj kvs)) :
    findPrice py machineId (.obj kvs :: rest) = (py.float (entryPrice kvs)).map some := by
  obtain ⟨hid, hprice⟩ := h
  rw [findPrice, if_pos hid]
  cases hp : entryPrice kvs with
  | null => exact absurd hp hprice
  | _ => rfl

theorem findPrice_not_priced {kvs : List (Str × Json)} {rest : List Json}
    (h : ¬ Priced py machineId (.obj kvs)) :
    findPrice py machineId (.obj kvs :: rest) = findPrice py machineId rest := by
  rw [findPrice]
  split_ifs with hid
  · cases hp : entryPrice kvs with
    | null => rfl
    | _ => exact absurd ⟨hid, by rw [hp]; exact nofun⟩ h
  · rfl

theorem escapes_findPrice (entries : List Json) :
    Escapes (findPrice py machineId entries) ↔ ¬ EntriesReadable py machineId entries := by
  induction entries with
  | nil =>
    refine iff_of_false ?_ (not_not_intro entriesReadable_nil)
    rintro ⟨e, he, -⟩
    cases he
  | cons m rest ih =>
    rw [entriesReadable_cons]
    cases m with
    | obj kvs =>
      by_cases hm : Priced py machineId (.obj kvs)
      · rw [findPrice_priced hm, escapes_float]
        simp [hm]
      · rw [findPrice_not_priced hm, ih]
        simp [hm]
    | _ => exact iff_of_true ⟨.attributeError, rfl, rfl⟩ (by simp)

theorem escapes_machines (data : Json) :
    Escapes (machinesOf data >>= fun machines => iterate machines >>= findPrice py machineId) ↔
      ¬ MachinesReadable py machineId data := by
  have hempty : ¬ Escapes (.ok none) := fun ⟨_, he, _⟩ => (nomatch he)
  have htype : ¬ Escapes (.error .typeError) := by
    rintro ⟨e, he, hcaught⟩
    cases he
    cases hcaught
  have hattribute : Escapes (.error .attributeError) := ⟨.attributeError, rfl, rfl⟩
  cases data with
  | arr entries => exact escapes_findPrice entries
  | obj kvs =>
    delta machinesOf MachinesReadable
    dsimp only
    generalize lookup ("machines" : Str) kvs = found
    match found with
    | none => exact iff_of_false hempty (not_not_intro trivial)
    | some (.arr entries) => exact escapes_findPrice entries
    | some (.obj []) => exact iff_of_false hempty (not_not_intro rfl)
    | some (.obj (_ :: _)) => exact iff_of_true hattribute (List.cons_ne_nil _ _)
    | some (.str []) => exact iff_of_false hempty (not_not_intro rfl)
    | some (.str (_ :: _)) => exact iff_of_true hattribute (List.cons_ne_nil _ _)
    | some .null | some (.bool _) | some (.int _) | some (.float _) =>
      exact iff_of_false htype (not_not_intro trivial)
  | _ => exact iff_of_true hattribute id

theorem toOption_eq_none_iff {α : Type} {x : Except PyExc α} :
    x.toOption = none ↔ ∃ e, x = .error e := by
  cases x with
  | ok a => exact iff_of_false (fun h => (nomatch h)) (fun ⟨_, h⟩ => (nomatch h))
  | error e => exact iff_of_true rfl ⟨e, rfl⟩

/-- A method that reads the output of a successful command behind a `try`. -/
theorem guarded_eq_none_iff {α : Type} {code : ℤ} {caught : PyExc → Bool} {default : α}
    {x : Except PyExc α} :
    (if code = 0 then rescue caught default x else .ok default).toOption = none ↔
      code = 0 ∧ ∃ e, x = .error e ∧ caught e = false := by
  rw [toOption_eq_none_iff]
  split_ifs with hcode
  · simp only [rescue_eq_error, hcode, true_and]
  · exact iff_of_false (fun ⟨_, h⟩ => (nomatch h)) (fun h => hcode h.1)

theorem getListingPrice_eq_none_iff (r : CliRun) :
    (getListingPrice py machineId r).toOption = none ↔ ¬ PriceReadable py machineId r := by
  have hcaught : ∀ {e : PyExc}, priceCaught e = true →
      ¬ ∃ e', (.error e : Except PyExc (Option PyFloat)) = .error e' ∧ priceCaught e' = false := by
    rintro e he ⟨e', heq, he'⟩
    cases heq
    rw [he] at he'
    cases he'
  match r with
  | .raises e => exact iff_of_true rfl id
  | .fileNotFound | .timeoutExpired =>
    exact iff_of_false (fun h => (nomatch h)) (not_not_intro trivial)
  | .completed code .notUtf8 => exact iff_of_true rfl id
  | .completed code (.value data) =>
    refine guarded_eq_none_iff.trans ?_
    rw [PriceReadable, Classical.not_imp]
    exact and_congr_right fun _ => escapes_machines data
  | .completed code .notJson | .completed code .tooManyDigits =>
    exact guarded_eq_none_iff.trans
      (iff_of_false (fun h => hcaught rfl h.2) (not_not_intro trivial))
  | .completed code .tooDeep =>
    refine guarded_eq_none_iff.trans ?_
    rw [PriceReadable, not_not]
    exact and_iff_left ⟨.recursionError, rfl, rfl⟩

end Price

theorem setMachine_eq_none_iff (r : CliRun) : (setMachine r).toOption = none ↔ ¬ Spawns r := by
  match r with
  | .raises e => exact iff_of_true rfl id
  | .fileNotFound | .timeoutExpired =>
    exact iff_of_false (fun h => (nomatch h)) (not_not_intro trivial)
  | .completed code .notUtf8 => exact iff_of_true rfl id
  | .completed code (.value _) | .completed code .notJson | .completed code .tooManyDigits
  | .completed code .tooDeep =>
    exact iff_of_false (fun h => (nomatch h)) (not_not_intro trivial)

theorem setMachine_eq_true_iff {r : CliRun} (h : Spawns r) :
    (setMachine r).toOption = some true ↔ Succeeds r := by
  match r with
  | .raises e => exact h.elim
  | .fileNotFound | .timeoutExpired => exact iff_of_false (by decide) id
  | .completed code .notUtf8 => exact h.elim
  | .completed code (.value _) | .completed code .notJson | .completed code .tooManyDigits
  | .completed code .tooDeep => simp [setMachine, exec, Except.map, Except.toOption, Succeeds]

theorem countOf_ok_or_typeError (data : Json) :
    (∃ n, countOf data = .ok n) ∨ countOf data = .error .typeError := by
  have hlen : ∀ x : Json, (∃ n, len x = .ok n) ∨ len x = .error .typeError := by
    intro x
    cases x with
    | arr _ | obj _ | str _ => exact Or.inl ⟨_, rfl⟩
    | null | bool _ | int _ | float _ => exact Or.inr rfl
  cases data with
  | obj kvs =>
    delta countOf
    dsimp only
    cases lookup ("instances" : Str) kvs with
    | none => exact Or.inl ⟨0, rfl⟩
    | some instances => exact hlen instances
  | _ => exact Or.inl ⟨_, rfl⟩

theorem activeRentalCount_eq_none_iff (r : CliRun) :
    (activeRentalCount r).toOption = none ↔ ¬ CountReadable r := by
  match r with
  | .raises e => exact iff_of_true rfl id
  | .fileNotFound | .timeoutExpired =>
    exact iff_of_false (fun h => (nomatch h)) (not_not_intro trivial)
  | .completed code .notUtf8 => exact iff_of_true rfl id
  | .completed code (.value data) =>
    refine guarded_eq_none_iff.trans (iff_of_false ?_ (not_not_intro trivial))
    rintro ⟨-, e, he, hcaught⟩
    have hdata : countOf data = .error e := he
    rcases countOf_ok_or_typeError data with ⟨n, hn⟩ | htype
    · rw [hn] at hdata
      cases hdata
    · rw [htype] at hdata
      cases hdata
      cases hcaught
  | .completed code .notJson =>
    refine guarded_eq_none_iff.trans (iff_of_false ?_ (not_not_intro trivial))
    rintro ⟨-, e, he, hcaught⟩
    cases he
    cases hcaught
  | .completed code .tooManyDigits =>
    refine guarded_eq_none_iff.trans ?_
    rw [CountReadable, not_not]
    exact and_iff_left ⟨.valueError, rfl, rfl⟩
  | .completed code .tooDeep =>
    refine guarded_eq_none_iff.trans ?_
    rw [CountReadable, not_not]
    exact and_iff_left ⟨.recursionError, rfl, rfl⟩

/-! ### The tick -/

section Tick

variable {p : VastProvider} {tick : Tick}

theorem raised_doList :
    (doList p tick).raised = true ↔ tick.listMachine = none ∨
      tick.listMachine = some true ∧ p.listedAt = none ∧ tick.getListingPrice = none := by
  simp only [doList, listed]
  cases tick.listMachine with
  | none => simp
  | some r =>
    cases r with
    | false => simp
    | true => cases p.listedAt <;> cases tick.getListingPrice <;> simp

theorem raised_doUnlist : (doUnlist p tick).raised = true ↔ tick.unlistMachine = none := by
  rw [doUnlist]
  cases tick.unlistMachine with
  | none => simp
  | some r => cases r <;> simp

theorem raised_drain : (drain p tick).raised = true ↔ tick.activeRentalCount = none := by
  rw [drain]
  cases tick.activeRentalCount with
  | none => simp
  | some count => by_cases h0 : count = 0 <;> simp [h0]

theorem action_idle_raised {schedule : Option Schedule} {now : ℤ} :
    action p schedule now = .idle true ↔ p.enabled = true ∧ schedule = none := by
  unfold action
  by_cases he : p.enabled = true
  · cases schedule with
    | none => simp [he]
    | some s => cases hw : wantListed p s now <;> cases p.state <;> simp [he, hw]
  · simp [he]

end Tick

theorem scheduleOf_eq_none_iff {py : Python} {schedule : Json} :
    scheduleOf py schedule = none ↔ ¬ ∃ kvs, schedule = .obj kvs := by
  cases schedule with
  | obj kvs => exact iff_of_false (fun h => (nomatch h)) (not_not_intro ⟨kvs, rfl⟩)
  | _ => exact iff_of_true rfl (fun ⟨_, h⟩ => (nomatch h))

theorem readable_iff {py : Python} {machineId : Str} {p : VastProvider} {t : RawTick} :
    Readable py machineId p t ↔ action p (scheduleOf py t.schedule) t.now ≠ .idle true ∧
      BranchReadable py machineId p t (action p (scheduleOf py t.schedule) t.now) := by
  have hschedule : action p (scheduleOf py t.schedule) t.now ≠ .idle true ↔
      (p.enabled = true → ∃ kvs, t.schedule = .obj kvs) := by
    rw [ne_eq, action_idle_raised, scheduleOf_eq_none_iff]
    exact ⟨fun h he => by_contra fun hobj => h ⟨he, hobj⟩, fun h hno => hno.2 (h hno.1)⟩
  rw [hschedule]
  exact ⟨fun h => ⟨h.schedule, h.branch⟩, fun h => ⟨h.1, h.2⟩⟩

theorem returns_doList (py : Python) (machineId : Str) (p : VastProvider) (t : RawTick) :
    ¬ (doList p (tickOf py machineId t)).raised = true ↔
      BranchReadable py machineId p t .list := by
  rw [raised_doList, not_or]
  refine (and_congr_left' ((setMachine_eq_none_iff t.list).not.trans not_not)).trans ?_
  refine and_congr_right fun hspawns => ?_
  have htrue := setMachine_eq_true_iff hspawns
  have hprice : (getListingPrice py machineId t.machines).toOption = none ↔
      ¬ PriceReadable py machineId t.machines := getListingPrice_eq_none_iff t.machines
  rw [not_and, not_and]
  exact imp_congr htrue (imp_congr_right fun _ => hprice.not.trans not_not)

theorem updateReturns_iff (py : Python) (machineId : Str) (p : VastProvider) (i : RawInput) :
    UpdateReturns py machineId p i ↔ ReadableAt py machineId p i := by
  cases i with
  | setOverride override => exact Iff.rfl
  | update t =>
    have hupdate : ∀ a, action p (scheduleOf py t.schedule) t.now = a →
        update p (tickOf py machineId t) = match a with
          | .idle raised => ⟨p, [], none, raised⟩
          | .list => doList p (tickOf py machineId t)
          | .unlist => doUnlist p (tickOf py machineId t)
          | .drain => drain p (tickOf py machineId t) := by
      rintro a rfl
      rfl
    refine Iff.trans ?_ readable_iff.symm
    rw [UpdateReturns, ← Bool.not_eq_true]
    cases ha : action p (scheduleOf py t.schedule) t.now with
    | idle raised =>
      rw [hupdate _ ha]
      cases raised <;> simp [BranchReadable]
    | list =>
      rw [hupdate _ ha, returns_doList]
      exact (and_iff_right (by decide)).symm
    | unlist =>
      rw [hupdate _ ha, raised_doUnlist]
      refine Iff.trans ?_ (and_iff_right (by decide)).symm
      exact (setMachine_eq_none_iff t.unlist).not.trans not_not
    | drain =>
      rw [hupdate _ ha, raised_drain]
      refine Iff.trans ?_ (and_iff_right (by decide)).symm
      exact (activeRentalCount_eq_none_iff t.instances).not.trans not_not

/-- In every run the updates return exactly when each of them can read what it is given. -/
theorem updateReturns_iff_readable (py : Python) (machineId : Str) (enabled : Bool)
    (preListMicros : ℤ) (inputs : List RawInput) :
    Run.Along (Run.total (rawStep py machineId)) (UpdateReturns py machineId)
        (initial enabled preListMicros) inputs ↔
      Run.Along (Run.total (rawStep py machineId)) (ReadableAt py machineId)
        (initial enabled preListMicros) inputs :=
  Run.along_iff (updateReturns_iff py machineId)

def noPython : Python := ⟨fun _ => none, fun _ => .invalid, fun _ => []⟩

def listTick (list : CliRun) : RawTick :=
  ⟨.obj [("should_list", .bool true)], 0, list, .timeoutExpired, .timeoutExpired,
    .timeoutExpired, 0⟩

theorem not_updateReturns_permissionDenied :
    ¬ Run.Along (Run.total (rawStep noPython "4711")) (UpdateReturns noPython "4711")
      (initial true 600000000) [.update (listTick (.raises .osError))] := by
  intro h
  have hreturns : (update (initial true 600000000)
      (tickOf noPython "4711" (listTick (.raises .osError)))).raised = false := h.1
  exact absurd hreturns (by decide)

end HadcdAgent.Vast
