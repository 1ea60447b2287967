import HadcdAgent.Lib.FormUrl
import HadcdAgent.Lib.Json

/-!
# Strings and numbers in JSON text

How `json.dumps` with `ensure_ascii` writes a string or an integer, and what `json.loads`
reads there. The texts of floats are a parameter.
-/

namespace Lib

/-- `float.__repr__` of a finite float and `float` of a JSON number. -/
structure FloatText where
  repr : ℚ → Str
  float : Str → PyFloat

namespace JsonText

/-! ### Strings -/

def hex4 (n : ℕ) : Str :=
  [Nat.digitChar (n / 4096 % 16), Nat.digitChar (n / 256 % 16), Nat.digitChar (n / 16 % 16),
    Nat.digitChar (n % 16)]

/-- The UTF-16 code units of a character. -/
def unitsOf (c : Char) : List ℕ :=
  if c.toNat < 0x10000 then [c.toNat]
  else [0xD800 + (c.toNat - 0x10000) / 0x400, 0xDC00 + (c.toNat - 0x10000) % 0x400]

/-- The escapes of one letter. -/
def letters : List (Char × Char) :=
  [('"', '"'), ('\\', '\\'), ('n', '\n'), ('r', '\r'), ('t', '\t'), ('b', '\x08'), ('f', '\x0c')]

/-- `ensure_ascii` leaves the printable ASCII characters. -/
def escape (c : Char) : Str :=
  match letters.find? (·.2 = c) with
  | some letter => ['\\', letter.1]
  | none =>
    if 0x20 ≤ c.toNat ∧ c.toNat < 0x7F then [c]
    else (unitsOf c).flatMap fun n => '\\' :: 'u' :: hex4 n

def quote (s : Str) : Str := '"' :: (s.flatMap escape ++ ['"'])

/-- What stands before the closing quote, and the rest. -/
def splitQuote : Str → Option (Str × Str)
  | [] | ['\\'] => none
  | '"' :: rest => some ([], rest)
  | '\\' :: c :: rest => (splitQuote rest).map fun r => ('\\' :: c :: r.1, r.2)
  | c :: rest => (splitQuote rest).map fun r => (c :: r.1, r.2)

def hexValue : List Char → Option ℕ
  | [a, b, c, d] => do
    let a ← FormUrl.hexVal a
    let b ← FormUrl.hexVal b
    let c ← FormUrl.hexVal c
    let d ← FormUrl.hexVal d
    pure (((a * 16 + b) * 16 + c) * 16 + d)
  | _ => none

/-- A control character has to be escaped; `/` may be. -/
def readUnits : Str → Option (List ℕ)
  | [] => some []
  | '\\' :: 'u' :: a :: b :: c :: d :: rest =>
    match hexValue [a, b, c, d], readUnits rest with
    | some n, some units => some (n :: units)
    | _, _ => none
  | '\\' :: c :: rest =>
    match (('/', '/') :: letters).find? (·.1 = c), readUnits rest with
    | some letter, some units => some (letter.2.toNat :: units)
    | _, _ => none
  | ['\\'] => none
  | c :: rest => if c.toNat < 0x20 then none else (readUnits rest).map (c.toNat :: ·)

/-- A surrogate without its other half is no character. -/
def joinUnits : List ℕ → Option Str
  | [] => some []
  | high :: low :: rest =>
    if 0xD800 ≤ high ∧ high < 0xDC00 then
      if 0xDC00 ≤ low ∧ low < 0xE000 then
        (joinUnits rest).map (Char.ofNat (0x10000 + (high - 0xD800) * 0x400 + (low - 0xDC00)) :: ·)
      else none
    else if 0xDC00 ≤ high ∧ high < 0xE000 then none
    else (joinUnits (low :: rest)).map (Char.ofNat high :: ·)
  | [n] => if 0xD800 ≤ n ∧ n < 0xE000 then none else some [Char.ofNat n]

/-- After the opening quote. -/
def scanString (text : Str) : Option (Str × Str) :=
  match splitQuote text with
  | some (body, rest) => ((readUnits body).bind joinUnits).map fun s => (s, rest)
  | none => none

theorem splitQuote_plain {c : Char} (hq : c ≠ '"') (hb : c ≠ '\\') (t : Str) :
    splitQuote (c :: t) = (splitQuote t).map fun r => (c :: r.1, r.2) := by
  rw [splitQuote]
  · exact fun h _ => hb h
  · exact hq
  · exact fun _ _ h _ => hb h

theorem digitChar_plain {n : ℕ} (h : n < 16) :
    Nat.digitChar n ≠ '"' ∧ Nat.digitChar n ≠ '\\' ∧ FormUrl.hexVal (Nat.digitChar n) = some n := by
  have hall : ∀ n : Fin 16, Nat.digitChar n.val ≠ '"' ∧ Nat.digitChar n.val ≠ '\\' ∧
      FormUrl.hexVal (Nat.digitChar n.val) = some n.val := by decide
  exact hall ⟨n, h⟩

theorem splitQuote_unit (n : ℕ) (t : Str) :
    splitQuote ('\\' :: 'u' :: (hex4 n ++ t)) =
      (splitQuote t).map fun r => ('\\' :: 'u' :: (hex4 n ++ r.1), r.2) := by
  have hdigit : ∀ m (u : Str), splitQuote (Nat.digitChar (m % 16) :: u) =
      (splitQuote u).map fun r => (Nat.digitChar (m % 16) :: r.1, r.2) := by
    intro m u
    have hm := digitChar_plain (Nat.mod_lt m (show 16 > 0 by decide))
    exact splitQuote_plain hm.1 hm.2.1 u
  rw [splitQuote, hex4, List.cons_append, List.cons_append, List.cons_append, List.cons_append,
    hdigit, hdigit, hdigit, hdigit]
  simp only [Option.map_map, List.nil_append]
  rfl

theorem splitQuote_escape (c : Char) (t : Str) :
    splitQuote (escape c ++ t) = (splitQuote t).map fun r => (escape c ++ r.1, r.2) := by
  cases hletter : letters.find? (·.2 = c) with
  | some letter =>
    rw [escape, hletter]
    exact splitQuote.eq_4 ..
  | none =>
    have hnot := List.find?_eq_none.mp hletter
    rw [escape, hletter]
    dsimp only
    split_ifs with hplain
    · refine splitQuote_plain ?_ ?_ t
      · rintro rfl
        exact hnot ('"', '"') (by decide) (by decide)
      · rintro rfl
        exact hnot ('\\', '\\') (by decide) (by decide)
    · rw [unitsOf]
      split_ifs
      · simp only [List.flatMap_cons, List.flatMap_nil, List.append_nil, List.cons_append]
        exact splitQuote_unit _ t
      · simp only [List.flatMap_cons, List.flatMap_nil, List.append_nil, List.cons_append,
          List.append_assoc]
        rw [splitQuote_unit, splitQuote_unit, Option.map_map]
        rfl

theorem hexValue_hex4 {n : ℕ} (h : n < 0x10000) : hexValue (hex4 n) = some n := by
  have hdigit : ∀ m, FormUrl.hexVal (Nat.digitChar (m % 16)) = some (m % 16) :=
    fun m => (digitChar_plain (Nat.mod_lt m (by decide))).2.2
  rw [hex4, hexValue]
  simp only [hdigit, Option.bind_eq_bind, Option.bind_some, Option.pure_def, Option.some.injEq]
  omega

theorem readUnits_unit {n : ℕ} (h : n < 0x10000) (t : Str) :
    readUnits ('\\' :: 'u' :: (hex4 n ++ t)) = (readUnits t).map (n :: ·) := by
  have hvalue := hexValue_hex4 h
  rw [hex4] at hvalue
  rw [hex4, List.cons_append, List.cons_append, List.cons_append, List.cons_append, readUnits,
    hvalue, List.nil_append]
  cases readUnits t <;> rfl

theorem readUnits_letter {letter : Char × Char} (h : letter ∈ letters) (t : Str) :
    readUnits ('\\' :: letter.1 :: t) = (readUnits t).map (letter.2.toNat :: ·) := by
  have hu : ∀ l ∈ letters, l.1 ≠ 'u' ∧
      (('/', '/') :: letters).find? (·.1 = l.1) = some l := by decide
  rw [readUnits]
  · rw [(hu letter h).2]
    cases readUnits t <;> rfl
  · exact fun _ _ _ _ _ hc _ => (hu letter h).1 hc

theorem readUnits_plain {c : Char} (hb : c ≠ '\\') (hc : 0x20 ≤ c.toNat) (t : Str) :
    readUnits (c :: t) = (readUnits t).map (c.toNat :: ·) := by
  rw [readUnits]
  · rw [if_neg (Nat.not_lt.mpr hc)]
  · exact fun _ _ _ _ _ h _ => hb h
  · exact fun _ _ h _ => hb h
  · exact fun h _ => hb h

theorem toNat_bounds (c : Char) :
    c.toNat < 0xD800 ∨ 0xDFFF < c.toNat ∧ c.toNat < 0x110000 := PyStr.val_bounds c

theorem readUnits_escape (c : Char) (t : Str) :
    readUnits (escape c ++ t) = (readUnits t).map (unitsOf c ++ ·) := by
  have hbounds := toNat_bounds c
  cases hletter : letters.find? (·.2 = c) with
  | some letter =>
    have hmem := List.mem_of_find?_eq_some hletter
    have hsmall : ∀ l ∈ letters, unitsOf l.2 = [l.2.toNat] := by decide
    have hc : letter.2 = c := by simpa using List.find?_some hletter
    rw [escape, hletter, ← hc, hsmall letter hmem]
    exact readUnits_letter hmem t
  | none =>
    have hnot := List.find?_eq_none.mp hletter
    rw [escape, hletter]
    dsimp only
    split_ifs with hplain
    · have hunits : unitsOf c = [c.toNat] := if_pos (by omega)
      rw [hunits]
      refine readUnits_plain ?_ hplain.1 t
      rintro rfl
      exact hnot ('\\', '\\') (by decide) (by decide)
    · rw [unitsOf]
      split_ifs with hsmall
      · simp only [List.flatMap_cons, List.flatMap_nil, List.append_nil, List.cons_append]
        exact readUnits_unit hsmall t
      · simp only [List.flatMap_cons, List.flatMap_nil, List.append_nil, List.cons_append,
          List.append_assoc]
        rw [readUnits_unit (by omega), readUnits_unit (by omega), Option.map_map]
        rfl

theorem joinUnits_cons {n : ℕ} (h : ¬ (0xD800 ≤ n ∧ n < 0xE000)) (units : List ℕ) :
    joinUnits (n :: units) = (joinUnits units).map (Char.ofNat n :: ·) := by
  cases units with
  | nil => exact if_neg h
  | cons m units => rw [joinUnits, if_neg (by omega), if_neg (by omega)]

theorem joinUnits_unitsOf (c : Char) (units : List ℕ) :
    joinUnits (unitsOf c ++ units) = (joinUnits units).map (c :: ·) := by
  have hbounds := toNat_bounds c
  rw [unitsOf]
  split_ifs with hsmall
  · rw [List.singleton_append, joinUnits_cons (by omega), Char.ofNat_toNat]
  · have hvalue : 0x10000 + (0xD800 + (c.toNat - 0x10000) / 0x400 - 0xD800) * 0x400 +
        (0xDC00 + (c.toNat - 0x10000) % 0x400 - 0xDC00) = c.toNat := by omega
    rw [List.cons_append, List.singleton_append, joinUnits, if_pos (by omega), if_pos (by omega),
      hvalue, Char.ofNat_toNat]

theorem scanString_quote (s rest : Str) :
    scanString (s.flatMap escape ++ '"' :: rest) = some (s, rest) := by
  have hsplit : ∀ s : Str, splitQuote (s.flatMap escape ++ '"' :: rest) =
      some (s.flatMap escape, rest) := by
    intro s
    induction s with
    | nil => rfl
    | cons c s ih =>
      rw [List.flatMap_cons, List.append_assoc, splitQuote_escape, ih]
      rfl
  have hread : ∀ s : Str, (readUnits (s.flatMap escape)).bind joinUnits = some s := by
    intro s
    induction s with
    | nil => rfl
    | cons c s ih =>
      obtain ⟨units, hunits, hjoin⟩ := Option.bind_eq_some_iff.mp ih
      rw [List.flatMap_cons, readUnits_escape, hunits, Option.map_some, Option.bind_some,
        joinUnits_unitsOf, hjoin, Option.map_some]
  rw [scanString, hsplit]
  dsimp only
  rw [hread]
  rfl

/-! ### Numbers -/

def isNumberChar (c : Char) : Bool := c.isDigit || c ∈ (['-', '+', '.', 'e', 'E'] : Str)

def reprInt (n : ℤ) : Str :=
  if n < 0 then '-' :: Nat.toDigits 10 n.natAbs else Nat.toDigits 10 n.natAbs

def isDigits (s : Str) : Bool := s ≠ [] && s.all Char.isDigit

def isExponent : Str → Bool
  | c :: sign :: digits =>
    (c = 'e' || c = 'E') &&
      (if sign = '-' ∨ sign = '+' then isDigits digits else isDigits (sign :: digits))
  | _ => false

/-- A fraction, an exponent or both. -/
def isTail : Str → Bool
  | '.' :: rest =>
    let frac := rest.span Char.isDigit
    frac.1 ≠ [] && (frac.2 = [] || isExponent frac.2)
  | rest => isExponent rest

def signed (negative : Bool) (n : ℕ) : ℤ := if negative then -(n : ℤ) else n

def numberOf (fl : FloatText) (token : Str) : Option Json :=
  let negative : Bool := token.head? = some '-'
  let int := (if negative then token.tail else token).span Char.isDigit
  if int.1 = [] ∨ int.1.head? = some '0' ∧ int.1.length ≠ 1 then none
  else if int.2 = [] then some (.int (signed negative (Nat.ofDigitChars 10 int.1 0)))
  else if isTail int.2 then some (.float (fl.float token))
  else none

def scanNumber (fl : FloatText) (text : Str) : Option (Json × Str) :=
  let token := text.span isNumberChar
  (numberOf fl token.1).map fun v => (v, token.2)

/-- The text of `q` is a number with a fraction or an exponent, and it is read as `q`. -/
def Reads (fl : FloatText) (q : ℚ) : Prop :=
  (fl.repr q).all isNumberChar = true ∧ numberOf fl (fl.repr q) = some (.float (.fin q))

instance (fl : FloatText) (q : ℚ) : Decidable (Reads fl q) :=
  haveI : Decidable (numberOf fl (fl.repr q) = some (.float (.fin q))) :=
    match numberOf fl (fl.repr q) with
    | some (.float x) => decidable_of_iff (x = .fin q) (by simp)
    | some .null | some (.bool _) | some (.int _) | some (.str _) | some (.arr _)
    | some (.obj _) | none => .isFalse nofun
  inferInstanceAs (Decidable (_ ∧ _))

theorem span_append {p : Char → Bool} {s rest : Str} (hs : s.all p = true)
    (hrest : ∀ c ∈ rest.head?, p c = false) : (s ++ rest).span p = (s, rest) := by
  rw [List.span_eq_takeWhile_dropWhile]
  have hall := List.all_eq_true.mp hs
  have htake : rest.takeWhile p = [] ∧ rest.dropWhile p = rest := by
    cases rest with
    | nil => exact ⟨rfl, rfl⟩
    | cons c rest =>
      have hc : p c = false := hrest c rfl
      exact ⟨List.takeWhile_cons_of_neg (by simp [hc]), List.dropWhile_cons_of_neg (by simp [hc])⟩
  rw [List.takeWhile_append_of_pos hall, List.dropWhile_append_of_pos hall, htake.1, htake.2,
    List.append_nil]

theorem head_toDigits {n : ℕ} (h : n ≠ 0) : (Nat.toDigits 10 n).head? ≠ some '0' := by
  induction n using Nat.strongRecOn with
  | ind n ih =>
    by_cases hlt : n < 10
    · rw [Nat.toDigits_of_lt_base hlt]
      interval_cases n <;> first | exact absurd rfl h | decide
    · rw [Nat.toDigits_of_base_le (by decide) (Nat.not_lt.mp hlt), List.head?_append]
      have hdiv : n / 10 ≠ 0 := by omega
      have hhead := ih (n / 10) (by omega) hdiv
      cases hd : (Nat.toDigits 10 (n / 10)).head? with
      | none => exact absurd (List.head?_eq_none_iff.mp hd) Nat.toDigits_ne_nil
      | some c =>
        rw [hd] at hhead
        exact hhead

theorem numberOf_reprInt (fl : FloatText) (n : ℤ) :
    (reprInt n).all isNumberChar = true ∧ numberOf fl (reprInt n) = some (.int n) := by
  have hdigits : ∀ c ∈ Nat.toDigits 10 n.natAbs, c.isDigit = true :=
    fun _ => PyStr.isDigit_of_mem_toDigits
  have hspan : (Nat.toDigits 10 n.natAbs).span Char.isDigit = (Nat.toDigits 10 n.natAbs, []) := by
    have h := @span_append Char.isDigit _ [] (List.all_eq_true.mpr hdigits) nofun
    rwa [List.append_nil] at h
  have hnumber : (Nat.toDigits 10 n.natAbs).all isNumberChar = true :=
    List.all_eq_true.mpr fun c hc => by rw [isNumberChar, hdigits c hc, Bool.true_or]
  have hminus : (Nat.toDigits 10 n.natAbs).head? ≠ some '-' := by
    intro h
    exact absurd (hdigits '-' (List.mem_of_mem_head? h)) (by decide)
  have hzero : ¬ (Nat.toDigits 10 n.natAbs = [] ∨
      (Nat.toDigits 10 n.natAbs).head? = some '0' ∧ (Nat.toDigits 10 n.natAbs).length ≠ 1) := by
    rintro (h | ⟨hhead, hlength⟩)
    · exact Nat.toDigits_ne_nil h
    · by_cases hn : n.natAbs = 0
      · rw [hn] at hlength
        exact hlength (by decide)
      · exact head_toDigits hn hhead
  rw [reprInt]
  split_ifs with hneg
  · constructor
    · rw [List.all_cons, hnumber]
      rfl
    · simp only [numberOf, List.head?_cons, List.tail_cons, decide_true, if_true, hspan,
        if_neg hzero, signed, Nat.ofDigitChars_ten_toDigits]
      congr 2
      omega
  · refine ⟨hnumber, ?_⟩
    simp only [numberOf, hminus, decide_false, Bool.false_eq_true, if_false, hspan, if_neg hzero,
      if_true, signed, Nat.ofDigitChars_ten_toDigits]
    congr 2
    omega

theorem scanNumber_append {fl : FloatText} {token rest : Str} {v : Json}
    (h : token.all isNumberChar = true ∧ numberOf fl token = some v)
    (hrest : ∀ c ∈ rest.head?, isNumberChar c = false) :
    scanNumber fl (token ++ rest) = some (v, rest) := by
  rw [scanNumber, span_append h.1 hrest]
  dsimp only
  rw [h.2]
  rfl

end JsonText

end Lib
