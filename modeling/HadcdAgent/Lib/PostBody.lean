import HadcdAgent.Lib.FormUrl

/-!
# The body of a POST request

How much of a request a handler reads: the number in its `Content-Length`, when that is a
number and no more than the handler accepts.
-/

namespace Lib.FormUrl

open PyStr

/-! ### Numbers in text -/

/-- `sys.int_info.default_max_str_digits`. -/
def maxStrDigits : ℕ := 4300

/-- Runs of digits joined by single underscores, not too many in all. -/
def parseDigits (t : Str) : Option ℕ :=
  let digits := t.filter (· ≠ '_')
  if ((t.splitOn '_').all fun run => !run.isEmpty && run.all Char.isDigit) &&
      decide (digits.length ≤ maxStrDigits) then
    some (Nat.ofDigitChars 10 digits 0)
  else none

/-- `int(text)`, of text without decimal digits but the ASCII ones. -/
def parseInt (t : Str) : Option ℤ :=
  match strip t with
  | '-' :: digits => (parseDigits digits).map fun n => -(n : ℤ)
  | '+' :: digits => (parseDigits digits).map fun n => (n : ℤ)
  | digits => (parseDigits digits).map fun n => (n : ℤ)

/-! ### The body -/

inductive BodyError where
  | badLength
  | tooLarge
  deriving DecidableEq

/-- `int(self.headers.get("Content-Length", 0))`, the bounds on it and
`self.rfile.read(length)`; `sent` is what comes before the client closes. -/
def readBody (cap : ℕ) (contentLength : Option Str) (sent : List UInt8) :
    Except BodyError (List UInt8) :=
  match contentLength.elim (some 0) parseInt with
  | none => .error .badLength
  | some length =>
    if length < 0 ∨ (cap : ℤ) < length then .error .tooLarge else .ok (sent.take length.toNat)

/-- `parse_qs(raw.decode("utf-8", errors="replace"))`. -/
def readForm (body : List UInt8) : Dict Str (List Str) := parseQs (decodeReplace body)

theorem ne_of_isDigit {c d : Char} (h : c.isDigit = true) (hd : d.isDigit = false) : c ≠ d := by
  rintro rfl
  rw [h] at hd
  cases hd

theorem parseDigits_toDigits {n : ℕ} (hn : (Nat.toDigits 10 n).length ≤ maxStrDigits) :
    parseDigits (Nat.toDigits 10 n) = some n := by
  have hne : ∀ c ∈ Nat.toDigits 10 n, c ≠ '_' := fun c hc =>
    ne_of_isDigit (isDigit_of_mem_toDigits hc) (by decide)
  have hnot : '_' ∉ Nat.toDigits 10 n := fun h => hne _ h rfl
  have hfilter : (Nat.toDigits 10 n).filter (· ≠ '_') = Nat.toDigits 10 n :=
    List.filter_eq_self.mpr fun c hc => decide_eq_true (hne c hc)
  have hnil : Nat.toDigits 10 n ≠ [] := Nat.toDigits_ne_nil
  have hall : (Nat.toDigits 10 n).all Char.isDigit = true :=
    List.all_eq_true.mpr fun c hc => isDigit_of_mem_toDigits hc
  rw [parseDigits, List.splitOn_eq_singleton hnot, hfilter, Nat.ofDigitChars_ten_toDigits, if_pos]
  simp [hall, hnil, hn]

/-- A number written in decimal is read back. -/
theorem parseInt_toDigits {n : ℕ} (hn : (Nat.toDigits 10 n).length ≤ maxStrDigits) :
    parseInt (Nat.toDigits 10 n) = some (n : ℤ) := by
  have hdigit : ∀ c ∈ Nat.toDigits 10 n, c.isDigit = true := fun c => isDigit_of_mem_toDigits
  have hstrip : strip (Nat.toDigits 10 n) = Nat.toDigits 10 n := (spaceFree_toDigits n).stripped
  have hparse := parseDigits_toDigits hn
  rw [parseInt, hstrip]
  split
  · next digits heq =>
      exact absurd (hdigit '-' (heq ▸ List.mem_cons_self ..)) (by decide)
  · next digits heq =>
      exact absurd (hdigit '+' (heq ▸ List.mem_cons_self ..)) (by decide)
  · rw [hparse]
    rfl

theorem length_toDigits_mono {m n : ℕ} (h : m ≤ n) :
    (Nat.toDigits 10 m).length ≤ (Nat.toDigits 10 n).length := by
  have hn : n < 10 ^ (Nat.toDigits 10 n).length :=
    (Nat.length_toDigits_le_iff (by decide) Nat.length_toDigits_pos).mp le_rfl
  exact (Nat.length_toDigits_le_iff (by decide) Nat.length_toDigits_pos).mpr (h.trans_lt hn)

/-- A body that fits is read whole, and nothing behind it. -/
theorem readBody_of_le {cap : ℕ} (hcap : (Nat.toDigits 10 cap).length ≤ maxStrDigits)
    {body : List UInt8} (h : body.length ≤ cap) (rest : List UInt8) :
    readBody cap (some (Nat.toDigits 10 body.length)) (body ++ rest) = .ok body := by
  have hbounds : ¬ ((body.length : ℤ) < 0 ∨ (cap : ℤ) < body.length) := by omega
  have hparse : parseInt (Nat.toDigits 10 body.length) = some (body.length : ℤ) :=
    parseInt_toDigits ((length_toDigits_mono h).trans hcap)
  simp only [readBody, Option.elim_some, hparse]
  rw [if_neg hbounds, Int.toNat_natCast, List.take_left]

theorem length_readBody {cap : ℕ} {contentLength : Option Str} {sent body : List UInt8}
    (h : readBody cap contentLength sent = .ok body) : body.length ≤ cap := by
  simp only [readBody] at h
  split at h
  · cases h
  · split_ifs at h with hbounds
    cases h
    rw [List.length_take]
    omega

/-- A form that a client sends is the form that the handler sees. -/
theorem readForm_urlencode (safe : SafeSet) (kvs : List (Str × Str)) :
    readForm (encodeUtf8 (urlencode safe kvs)) = parseQs (urlencode safe kvs) := by
  rw [readForm, decodeReplace_encodeUtf8]

end Lib.FormUrl
