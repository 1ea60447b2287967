import HadcdAgent.Lib.Dict
import HadcdAgent.Lib.Exc
import HadcdAgent.Lib.PyStr

/-!
# JSON values as Python holds them

What `json.loads` returns: `None`, booleans, unbounded integers, floats, strings,
lists and dictionaries, with the operations that code applies to such a value
before it knows its shape: truth, `x or y`, `x.get(k)`, `isinstance`, `float`.
-/

namespace Lib

/-- A float that JSON text can hold: a finite one by its value, or one of
`Infinity`, `-Infinity` and `NaN`. -/
inductive PyFloat where
  | fin (q : ℚ)
  | inf
  | negInf
  | nan
  deriving DecidableEq

/-- A value that `json.loads` returns; an object is the list of its items. -/
inductive Json where
  | null
  | bool (b : Bool)
  | int (n : ℤ)
  | float (x : PyFloat)
  | str (s : Str)
  | arr (xs : List Json)
  | obj (kvs : List (Str × Json))

/-! ### Integers as floats -/

def roundHalfEven (n d : ℕ) : ℕ :=
  if 2 * (n % d) < d ∨ 2 * (n % d) = d ∧ n / d % 2 = 0 then n / d else n / d + 1

/-- `float(n)`: rounded to 53 bits; `none` is the `OverflowError`. -/
@[irreducible] def floatOfNat (n : ℕ) : Option ℕ :=
  let unit := 2 ^ (n.log2 - 52)
  let rounded := roundHalfEven n unit * unit
  if rounded < 2 ^ 1024 then some rounded else none

def floatOfInt (n : ℤ) : Option PyFloat :=
  (floatOfNat n.natAbs).map fun m => .fin (if n < 0 then -(m : ℚ) else m)

def PyFloat.isPos : PyFloat → Bool
  | fin q => 0 < q
  | inf => true
  | negInf | nan => false

/-- `x < y`. -/
def PyFloat.lt : PyFloat → PyFloat → Bool
  | fin p, fin q => p < q
  | fin _, inf | negInf, fin _ | negInf, inf => true
  | _, _ => false

namespace Json

def truthy : Json → Bool
  | null => false
  | bool b => b
  | int n => n ≠ 0
  | float (.fin q) => q ≠ 0
  | float _ => true
  | str s => s ≠ []
  | arr xs => xs ≠ []
  | obj kvs => kvs ≠ []

def or (x y : Json) : Json := if x.truthy then x else y

/-- `args.get(k)` on the items of a dictionary. -/
def get (kvs : List (Str × Json)) (k : Str) : Json := (lookup k kvs).getD null

def entries : Json → List Json
  | arr xs => xs
  | _ => []

theorem get_assign (k k' : Str) (v : Json) (kvs : List (Str × Json)) :
    get (assign k v kvs) k' = if k = k' then v else get kvs k' := by
  rw [get, lookup_assign]
  split_ifs <;> rfl

/-- The exact value of a number; `True` is 1. -/
def number? : Json → Option PyFloat
  | bool b => some (.fin (if b then 1 else 0))
  | int n => some (.fin n)
  | float x => some x
  | null | str _ | arr _ | obj _ => none

def isNumber (x : Json) : Bool := x.number?.isSome

/-- An integer that `float` refuses. -/
def isHuge : Json → Bool
  | int n => (floatOfInt n).isNone
  | _ => false

def optionalFloat : Json → Except PyExc (Option PyFloat)
  | int n =>
    match floatOfInt n with
    | some x => .ok (some x)
    | none => .error .overflowError
  | x => .ok x.number?

mutual

/-- `x is y or x == y`, as the elements of containers are compared: `json.loads`
has one `NaN`. -/
def same : Json → Json → Bool
  | null, null => true
  | str s, str t => s = t
  | arr xs, arr ys => sameItems xs ys
  | obj kvs, obj lvs => kvs.length = lvs.length && sameEntries kvs lvs
  | bool b, y => y.number? = (bool b).number?
  | int n, y => y.number? = (int n).number?
  | float x, y => y.number? = some x
  | _, _ => false

def sameItems : List Json → List Json → Bool
  | [], [] => true
  | x :: xs, y :: ys => same x y && sameItems xs ys
  | _, _ => false

def sameEntries : List (Str × Json) → List (Str × Json) → Bool
  | [], _ => true
  | (k, x) :: kvs, lvs =>
    (match lookup k lvs with
      | some y => same x y
      | none => false) && sameEntries kvs lvs

end

def eq (x y : Json) : Bool :=
  match x with
  | float .nan => false
  | x => same x y

theorem truthy_arr {xs : List Json} : truthy (arr xs) = true ↔ xs ≠ [] := by simp [truthy]

theorem or_of_truthy {x : Json} (h : x.truthy = true) (y : Json) : x.or y = x := if_pos h

theorem or_of_not_truthy {x : Json} (h : x.truthy = false) (y : Json) : x.or y = y := by
  simp [or, h]

theorem optionalFloat_of_not_isHuge {x : Json} (h : x.isHuge = false) :
    ∃ y, x.optionalFloat = .ok y := by
  cases x with
  | int n =>
    rw [isHuge, Option.isNone_eq_false_iff, Option.isSome_iff_exists] at h
    obtain ⟨y, hy⟩ := h
    exact ⟨some y, by rw [optionalFloat, hy]⟩
  | _ => exact ⟨_, rfl⟩

theorem optionalFloat_of_isHuge {x : Json} (h : x.isHuge = true) :
    x.optionalFloat = .error .overflowError := by
  cases x with
  | int n =>
    rw [isHuge, Option.isNone_iff_eq_none] at h
    rw [optionalFloat, h]
  | _ => cases h

theorem map_optionalFloat_of_not_isHuge {β : Type} (f : Option PyFloat → β) {x : Json}
    (h : x.isHuge = false) : ∃ y, x.optionalFloat.map f = .ok y := by
  obtain ⟨y, hy⟩ := optionalFloat_of_not_isHuge h
  exact ⟨f y, by rw [hy]; rfl⟩

theorem map_optionalFloat_of_isHuge {β : Type} (f : Option PyFloat → β) {x : Json}
    (h : x.isHuge = true) : x.optionalFloat.map f = .error .overflowError := by
  rw [optionalFloat_of_isHuge h]
  rfl

end Json

/-- How `json.loads` ends on a text or on the bytes of a body. -/
inductive Loads where
  | value (data : Json)
  | notUtf8
  | notJson
  | tooManyDigits
  | tooDeep

def Loads.result : Loads → Except PyExc Json
  | value data => .ok data
  | notUtf8 => .error .unicodeDecodeError
  | notJson => .error .jsonDecodeError
  | tooManyDigits => .error .valueError
  | tooDeep => .error .recursionError

end Lib
