import HadcdAgent.Vast.Override

/-!
# The Vast.AI command line

`VastAiCli` (`agent/vast_provider.py`): `_exec`, `list_machine`, `unlist_machine`,
`get_listing_price` and `active_rental_count`, on whatever `subprocess.run` ends in,
and the tick of the provider that these calls make up.
-/

namespace HadcdAgent.Vast

open Lib

/-! ### The source -/

/-- What the code takes of the standard library: `float` and `fromisoformat` of a
text, and `str` of a JSON value. -/
structure Python where
  floatOfStr : Str → Option PyFloat
  fromisoformat : Str → IsoStamp
  str : Json → Str

/-- How `subprocess.run` ends: with an exit code and an output, for want of the
binary, after 30 s, or with another exception. -/
inductive CliRun where
  | completed (code : ℤ) (stdout : Loads)
  | fileNotFound
  | timeoutExpired
  | raises (e : PyExc)

/-- `_exec`: `text=True` decodes the output before it is returned. -/
def exec : CliRun → Except PyExc (ℤ × Loads)
  | .completed _ .notUtf8 => .error .unicodeDecodeError
  | .completed code stdout => .ok (code, stdout)
  | .fileNotFound | .timeoutExpired => .ok (-1, .notJson)
  | .raises e => .error e

def setMachine (r : CliRun) : Except PyExc Bool := (exec r).map fun result => result.1 = 0

def listMachine (r : CliRun) : Except PyExc Bool := setMachine r

def unlistMachine (r : CliRun) : Except PyExc Bool := setMachine r

/-- `data if isinstance(data, list) else data.get("machines", [])`. -/
def machinesOf : Json → Except PyExc Json
  | .arr xs => .ok (.arr xs)
  | .obj kvs => .ok ((lookup ("machines" : Str) kvs).getD (.arr []))
  | .null | .bool _ | .int _ | .float _ | .str _ => .error .attributeError

/-- The values that `for m in x` goes through. -/
def iterate : Json → Except PyExc (List Json)
  | .arr xs => .ok xs
  | .obj kvs => .ok (kvs.map fun kv => .str kv.1)
  | .str s => .ok (s.map fun c => .str [c])
  | .null | .bool _ | .int _ | .float _ => .error .typeError

/-- `float(x)`. -/
def Python.float (py : Python) : Json → Except PyExc PyFloat
  | .str s =>
    match py.floatOfStr s with
    | some x => .ok x
    | none => .error .valueError
  | x =>
    match x.optionalFloat with
    | .ok (some y) => .ok y
    | .ok none => .error .typeError
    | .error e => .error e

def entryId (py : Python) (kvs : List (Str × Json)) : Str :=
  py.str ((lookup ("id" : Str) kvs).getD (.str []))

/-- `m.get("dph_base") or m.get("min_bid")`. -/
def entryPrice (kvs : List (Str × Json)) : Json :=
  (Json.get kvs "dph_base").or (Json.get kvs "min_bid")

/-- The loop of `get_listing_price`: an entry of this machine without a price is
passed over. -/
def findPrice (py : Python) (machineId : Str) : List Json → Except PyExc (Option PyFloat)
  | [] => .ok none
  | .obj kvs :: rest =>
    if entryId py kvs = machineId then
      match entryPrice kvs with
      | .null => findPrice py machineId rest
      | price => (py.float price).map some
    else findPrice py machineId rest
  | _ :: _ => .error .attributeError

def parsePrice (py : Python) (machineId : Str) (stdout : Loads) :
    Except PyExc (Option PyFloat) := do
  let data ← stdout.result
  let machines ← machinesOf data
  let entries ← iterate machines
  findPrice py machineId entries

/-- `except (json.JSONDecodeError, TypeError, ValueError)`. -/
def priceCaught (e : PyExc) : Bool := e.isValueError || e = .typeError

def getListingPrice (py : Python) (machineId : Str) (r : CliRun) :
    Except PyExc (Option PyFloat) := do
  let (code, stdout) ← exec r
  if code = 0 then rescue priceCaught none (parsePrice py machineId stdout) else .ok none

/-- `len(x)`. -/
def len : Json → Except PyExc ℤ
  | .arr xs => .ok xs.length
  | .obj kvs => .ok kvs.length
  | .str s => .ok s.length
  | .null | .bool _ | .int _ | .float _ => .error .typeError

def countOf : Json → Except PyExc ℤ
  | .arr xs => .ok xs.length
  | .obj kvs =>
    match lookup ("instances" : Str) kvs with
    | some instances => len instances
    | none => .ok 0
  | .null | .bool _ | .int _ | .float _ | .str _ => .ok 0

/-- `except (json.JSONDecodeError, TypeError, KeyError)`. -/
def countCaught (e : PyExc) : Bool := e = .jsonDecodeError || e = .typeError || e = .keyError

def activeRentalCount (r : CliRun) : Except PyExc ℤ := do
  let (code, stdout) ← exec r
  if code = 0 then rescue countCaught (-1) (stdout.result >>= countOf) else .ok (-1)

/-! ### The tick that the calls make up -/

structure RawTick where
  schedule : Json
  now : ℤ
  list : CliRun
  unlist : CliRun
  instances : CliRun
  machines : CliRun
  stamp : ℤ

/-- `_is_near_window` up to the stamp: a value that is no text is a `TypeError`. -/
def stampOf (py : Python) (raw : Json) : IsoStamp :=
  if raw.truthy then
    match raw with
    | .str s => py.fromisoformat s
    | _ => .invalid
  else .absent

def scheduleOf (py : Python) : Json → Option Schedule
  | .obj kvs =>
    some ⟨(Json.get kvs "should_list").truthy, stampOf py (Json.get kvs "next_window_start")⟩
  | .null | .bool _ | .int _ | .float _ | .str _ | .arr _ => none

def tickOf (py : Python) (machineId : Str) (t : RawTick) : Tick where
  schedule := scheduleOf py t.schedule
  now := t.now
  listMachine := (listMachine t.list).toOption
  unlistMachine := (unlistMachine t.unlist).toOption
  activeRentalCount := (activeRentalCount t.instances).toOption
  getListingPrice := (getListingPrice py machineId t.machines).toOption
  stamp := t.stamp

/-! ### What a count is evidence of -/

def shownRentals : Json → Option (List Json)
  | .arr xs => some xs
  | .obj kvs =>
    match lookup ("instances" : Str) kvs with
    | some (.arr xs) => some xs
    | _ => none
  | _ => none

def evidence : CliRun → Option ℕ
  | .completed code (.value data) =>
    if code = 0 then (shownRentals data).map List.length else none
  | _ => none

def CountsExactly (r : CliRun) : Prop :=
  activeRentalCount r = .ok (match evidence r with
    | some n => n
    | none => -1)

/-- A list, or an object whose `instances` is there and neither a text nor an object. -/
def countable : Json → Bool
  | .arr _ => true
  | .obj kvs =>
    match lookup ("instances" : Str) kvs with
    | some (.str _) | some (.obj _) | none => false
    | some _ => true
  | _ => false

/-- The command ran with a decodable output, which after success is not JSON or a
countable value. -/
def Countable : CliRun → Prop
  | .completed _ .notUtf8 | .raises _ => False
  | .completed code (.value data) => code = 0 → countable data = true
  | .completed code .tooManyDigits | .completed code .tooDeep => code ≠ 0
  | .completed _ .notJson | .fileNotFound | .timeoutExpired => True

theorem countOf_eq_iff (data : Json) :
    rescue countCaught (-1) (countOf data) = .ok (match (shownRentals data).map List.length with
      | some n => (n : ℤ)
      | none => -1) ↔ countable data = true := by
  have hlen : ∀ n : ℕ, (n : ℤ) ≠ -1 := by
    intro n
    omega
  cases data with
  | arr xs => exact iff_of_true rfl rfl
  | obj kvs =>
    delta countOf shownRentals countable
    dsimp only
    generalize lookup ("instances" : Str) kvs = found
    match found with
    | none => simp [rescue]
    | some (.arr xs) => exact iff_of_true rfl rfl
    | some (.obj entries) => simp [rescue, len, hlen]
    | some (.str text) => simp [rescue, len, hlen]
    | some .null | some (.bool _) | some (.int _) | some (.float _) => exact iff_of_true rfl rfl
  | _ => exact iff_of_false (by simp [countOf, shownRentals, rescue]) (by simp [countable])

theorem countsExactly_iff (r : CliRun) : CountsExactly r ↔ Countable r := by
  match r with
  | .raises e => exact iff_of_false (fun h => (nomatch h)) id
  | .fileNotFound | .timeoutExpired => exact iff_of_true rfl trivial
  | .completed code stdout =>
    by_cases hcode : code = 0
    · subst hcode
      match stdout with
      | .value data => exact (countOf_eq_iff data).trans (imp_iff_right rfl).symm
      | .notUtf8 => exact iff_of_false (fun h => (nomatch h)) id
      | .notJson => exact iff_of_true rfl trivial
      | .tooManyDigits | .tooDeep => exact iff_of_false (fun h => (nomatch h)) (fun h => h rfl)
    · match stdout with
      | .value data =>
        refine iff_of_true ?_ fun h => absurd h hcode
        simp [CountsExactly, activeRentalCount, evidence, exec, hcode]
      | .notUtf8 => exact iff_of_false (fun h => (nomatch h)) id
      | .notJson =>
        refine iff_of_true ?_ trivial
        simp [CountsExactly, activeRentalCount, evidence, exec, hcode]
      | .tooManyDigits | .tooDeep =>
        refine iff_of_true ?_ hcode
        simp [CountsExactly, activeRentalCount, evidence, exec, hcode]

theorem activeRentalCount_of_closed {p : VastProvider} {tick : Tick} {s : Session}
    (h : (update p tick).closed = some s) : tick.activeRentalCount = some 0 := by
  have hdrain := action_of_closed h
  rw [update, hdrain] at h
  cases hc : tick.activeRentalCount with
  | none => simp [drain, hc] at h
  | some count =>
    by_cases h0 : count = 0
    · rw [h0]
    · simp [drain, hc, h0] at h

/-- The count is right exactly on a countable output, and where it is, a session is
closed only on an output that shows an empty list of rentals. -/
theorem countsExactly_iff_countable (r : CliRun) :
    (CountsExactly r ↔ Countable r) ∧
    ∀ py machineId p (t : RawTick), t.instances = r → Countable r →
      (update p (tickOf py machineId t)).closed ≠ none → evidence r = some 0 := by
  refine ⟨countsExactly_iff r, ?_⟩
  rintro py machineId p t rfl hcount hclosed
  obtain ⟨s, hs⟩ := Option.ne_none_iff_exists'.mp hclosed
  have hzero : (activeRentalCount t.instances).toOption = some 0 :=
    activeRentalCount_of_closed hs
  rw [(countsExactly_iff t.instances).mpr hcount] at hzero
  cases he : evidence t.instances with
  | none =>
    rw [he] at hzero
    cases hzero
  | some n =>
    rw [he] at hzero
    have hn : (n : ℤ) = 0 := Option.some.inj hzero
    rw [Int.natCast_eq_zero.mp hn]

/-- An error object counts as no rentals. -/
theorem not_countsExactly_errorObject :
    ¬ CountsExactly (.completed 0 (.value (.obj [("error", .str "unauthorized")]))) := by
  rw [countsExactly_iff]
  intro h
  exact absurd (h rfl) (by decide)

end HadcdAgent.Vast
