import HadcdAgent.Lib.Dict
import HadcdAgent.Lib.Utf8

/-!
# Form data in a request body

`application/x-www-form-urlencoded` as `urllib.parse` writes and reads it: `urlencode`
with `quote_plus`, and `parse_qs` with `unquote`. Which characters the client leaves as
they are is a parameter.
-/

namespace Lib.FormUrl

open PyStr

/-! ### Writing -/

/-- The bytes that are written as the character they stand for. -/
structure SafeSet where
  has : UInt8 → Bool
  plain : ∀ b, has b = true → b.toNat < 0x80 ∧
    Char.ofNat b.toNat ∉ (['%', '+', '&', '=', ' '] : Str)

def hexDigit (n : ℕ) : Char := Char.ofNat (if n < 10 then 48 + n else 55 + n)

def quoteByte (safe : SafeSet) (b : UInt8) : Str :=
  if safe.has b then [Char.ofNat b.toNat]
  else if b.toNat = 0x20 then ['+']
  else ['%', hexDigit (b.toNat / 16), hexDigit (b.toNat % 16)]

def quotePlus (safe : SafeSet) (t : Str) : Str := (encodeUtf8 t).flatMap (quoteByte safe)

def quotePair (safe : SafeSet) (kv : Str × Str) : Str :=
  quotePlus safe kv.1 ++ '=' :: quotePlus safe kv.2

def urlencode (safe : SafeSet) (kvs : List (Str × Str)) : Str :=
  List.intercalate ['&'] (kvs.map (quotePair safe))

/-! ### Reading -/

def hexVal (c : Char) : Option ℕ :=
  let n := c.toNat
  if 48 ≤ n ∧ n < 58 then some (n - 48)
  else if 65 ≤ n ∧ n < 71 then some (n - 55)
  else if 97 ≤ n ∧ n < 103 then some (n - 87)
  else none

/-- `unquote_to_bytes`, of ASCII text. -/
def unquoteToBytes : Str → List UInt8
  | [] => []
  | '%' :: c :: d :: t =>
    match hexVal c, hexVal d with
    | some m, some n => UInt8.ofNat (16 * m + n) :: unquoteToBytes t
    | _, _ => 0x25 :: unquoteToBytes (c :: d :: t)
  | c :: t => UInt8.ofNat c.toNat :: unquoteToBytes t

def isAscii (c : Char) : Bool := c.toNat < 0x80

/-- `unquote`: each run of ASCII characters is decoded by itself; `run` is the one so far. -/
def unquoteFrom (run : Str) : Str → Str
  | [] => decodeReplace (unquoteToBytes run)
  | c :: t =>
    if isAscii c then unquoteFrom (run ++ [c]) t
    else decodeReplace (unquoteToBytes run) ++ c :: unquoteFrom [] t

def unquotePlus (t : Str) : Str :=
  unquoteFrom [] (t.map fun c => if c = '+' then ' ' else c)

/-- A pair without `=` or with a blank value is skipped. -/
def parsePair (nameValue : Str) : Option (Str × Str) :=
  let nv := partition '=' nameValue
  if '=' ∉ nameValue ∨ nv.2 = [] then none else some (unquotePlus nv.1, unquotePlus nv.2)

def parseQsl (qs : Str) : List (Str × Str) := (qs.splitOn '&').filterMap parsePair

def appendValue (d : Dict Str (List Str)) (kv : Str × Str) : Dict Str (List Str) :=
  d.set kv.1 ((d.get kv.1).getD [] ++ [kv.2])

def parseQs (qs : Str) : Dict Str (List Str) := (parseQsl qs).foldl appendValue Dict.empty

/-! ### A text both ways -/

section Text

variable {safe : SafeSet}

theorem hexVal_hexDigit {n : ℕ} (h : n < 16) : hexVal (hexDigit n) = some n := by
  have hall : ∀ n : Fin 16, hexVal (hexDigit n.val) = some n.val := by decide
  exact hall ⟨n, h⟩

/-- The digits are ASCII letters and digits. -/
theorem hexDigit_plain {n : ℕ} (h : n < 16) :
    isAscii (hexDigit n) = true ∧ hexDigit n ∉ (['+', '&', '='] : Str) := by
  have hall : ∀ n : Fin 16, isAscii (hexDigit n.val) = true ∧
      hexDigit n.val ∉ (['+', '&', '='] : Str) := by decide
  exact hall ⟨n, h⟩

theorem toNat_byte (b : UInt8) : (Char.ofNat b.toNat).toNat = b.toNat := by
  have hvalid : b.toNat.isValidChar := Or.inl (lt_trans b.toNat_lt (by decide))
  rw [Char.ofNat, dif_pos hvalid]
  rfl

theorem ofNat_byte (b : UInt8) : UInt8.ofNat (Char.ofNat b.toNat).toNat = b := by
  rw [toNat_byte]
  exact UInt8.ofNat_toNat

theorem unquoteToBytes_cons {c : Char} (hc : c ≠ '%') (t : Str) :
    unquoteToBytes (c :: t) = UInt8.ofNat c.toNat :: unquoteToBytes t := by
  rw [unquoteToBytes.eq_def]
  split
  · next h => cases h
  · next h =>
      cases h
      exact absurd rfl hc
  · next h =>
      cases h
      rfl

theorem unquoteToBytes_percent {b : UInt8} (t : Str) :
    unquoteToBytes ('%' :: hexDigit (b.toNat / 16) :: hexDigit (b.toNat % 16) :: t) =
      b :: unquoteToBytes t := by
  have hb : b.toNat < 256 := b.toNat_lt
  have hhigh : hexVal (hexDigit (b.toNat / 16)) = some (b.toNat / 16) := hexVal_hexDigit (by omega)
  have hlow : hexVal (hexDigit (b.toNat % 16)) = some (b.toNat % 16) := hexVal_hexDigit (by omega)
  rw [unquoteToBytes, hhigh, hlow]
  have hsum : 16 * (b.toNat / 16) + b.toNat % 16 = b.toNat := by omega
  simp only [hsum, UInt8.ofNat_toNat]

def plusToSpace (t : Str) : Str := t.map fun c => if c = '+' then ' ' else c

theorem plusToSpace_of_not_mem {t : Str} (h : '+' ∉ t) : plusToSpace t = t := by
  have hid : ∀ c ∈ t, (if c = '+' then ' ' else c) = c := by
    intro c hc
    refine if_neg ?_
    rintro rfl
    exact h hc
  exact (List.map_congr_left hid).trans (List.map_id t)

theorem unquoteToBytes_quoteByte (b : UInt8) (t : Str) :
    unquoteToBytes (plusToSpace (quoteByte safe b) ++ t) = b :: unquoteToBytes t := by
  rw [quoteByte]
  split_ifs with hsafe hspace
  · have hplain := (safe.plain b hsafe).2
    simp only [List.mem_cons, List.not_mem_nil, or_false, not_or] at hplain
    rw [plusToSpace_of_not_mem (by simpa using Ne.symm hplain.2.1), List.singleton_append,
      unquoteToBytes_cons hplain.1, ofNat_byte]
  · have hb : UInt8.ofNat ' '.toNat = b := by
      rw [← UInt8.toNat_inj, hspace]
      rfl
    exact (unquoteToBytes_cons (by decide) t).trans (congrArg (· :: _) hb)
  · have hb : b.toNat < 256 := b.toNat_lt
    have hhigh := (@hexDigit_plain (b.toNat / 16) (by omega)).2
    have hlow := (@hexDigit_plain (b.toNat % 16) (by omega)).2
    simp only [List.mem_cons, List.not_mem_nil, or_false, not_or] at hhigh hlow
    rw [plusToSpace_of_not_mem]
    · exact unquoteToBytes_percent t
    · simp only [List.mem_cons, List.not_mem_nil, or_false, not_or]
      exact ⟨by decide, Ne.symm hhigh.1, Ne.symm hlow.1⟩

theorem unquoteToBytes_quoteBytes (bytes : List UInt8) :
    unquoteToBytes (plusToSpace (bytes.flatMap (quoteByte safe))) = bytes := by
  induction bytes with
  | nil => rfl
  | cons b bytes ih =>
    have hcons : plusToSpace ((b :: bytes).flatMap (quoteByte safe)) =
        plusToSpace (quoteByte safe b) ++ plusToSpace (bytes.flatMap (quoteByte safe)) := by
      rw [List.flatMap_cons]
      exact List.map_append
    rw [hcons, unquoteToBytes_quoteByte, ih]

theorem isAscii_byte {b : UInt8} (h : b.toNat < 0x80) : isAscii (Char.ofNat b.toNat) = true := by
  rw [isAscii, toNat_byte]
  exact decide_eq_true h

/-- What is written is ASCII, with no separator in it. -/
theorem quoteByte_plain {b : UInt8} {c : Char} (h : c ∈ quoteByte safe b) :
    isAscii c = true ∧ c ≠ '&' ∧ c ≠ '=' := by
  rw [quoteByte] at h
  split_ifs at h with hsafe hspace
  · obtain ⟨hlt, hplain⟩ := safe.plain b hsafe
    cases List.mem_singleton.mp h
    simp only [List.mem_cons, List.not_mem_nil, or_false, not_or] at hplain
    exact ⟨isAscii_byte hlt, hplain.2.2.1, hplain.2.2.2.1⟩
  · cases List.mem_singleton.mp h
    decide
  · have hb : b.toNat < 256 := b.toNat_lt
    have hdigit : ∀ n, n < 16 → isAscii (hexDigit n) = true ∧ hexDigit n ≠ '&' ∧ hexDigit n ≠ '=' := by
      intro n hn
      obtain ⟨hascii, hmem⟩ := hexDigit_plain hn
      simp only [List.mem_cons, List.not_mem_nil, or_false, not_or] at hmem
      exact ⟨hascii, hmem.2⟩
    simp only [List.mem_cons, List.not_mem_nil, or_false] at h
    rcases h with rfl | rfl | rfl
    · decide
    · exact hdigit _ (by omega)
    · exact hdigit _ (by omega)

theorem quotePlus_plain {t : Str} {c : Char} (h : c ∈ quotePlus safe t) :
    isAscii c = true ∧ c ≠ '&' ∧ c ≠ '=' := by
  obtain ⟨b, -, hc⟩ := List.mem_flatMap.mp h
  exact quoteByte_plain hc

theorem unquoteFrom_of_isAscii (run : Str) {t : Str} (h : ∀ c ∈ t, isAscii c = true) :
    unquoteFrom run t = decodeReplace (unquoteToBytes (run ++ t)) := by
  induction t generalizing run with
  | nil => rw [unquoteFrom, List.append_nil]
  | cons c t ih =>
    rw [unquoteFrom, if_pos (h c (List.mem_cons_self ..)),
      ih _ fun d hd => h d (List.mem_cons_of_mem c hd), List.append_assoc]
    rfl

theorem unquotePlus_quotePlus (t : Str) : unquotePlus (quotePlus safe t) = t := by
  have hascii : ∀ c ∈ plusToSpace (quotePlus safe t), isAscii c = true := by
    intro c hc
    obtain ⟨d, hd, rfl⟩ := List.mem_map.mp hc
    split_ifs
    · decide
    · exact (quotePlus_plain hd).1
  have hrun : unquotePlus (quotePlus safe t) = unquoteFrom [] (plusToSpace (quotePlus safe t)) := rfl
  rw [hrun, unquoteFrom_of_isAscii [] hascii, List.nil_append, quotePlus,
    unquoteToBytes_quoteBytes, decodeReplace_encodeUtf8]

theorem quotePlus_eq_nil_iff {t : Str} : quotePlus safe t = [] ↔ t = [] := by
  constructor
  · intro h
    rw [← @unquotePlus_quotePlus safe t, h]
    rfl
  · rintro rfl
    rfl

end Text

def unreserved (b : UInt8) : Bool :=
  let n := b.toNat
  (65 ≤ n && n ≤ 90) || (97 ≤ n && n ≤ 122) || (48 ≤ n && n ≤ 57) || n ∈ [95, 46, 45, 126]

theorem plain_unreserved (b : UInt8) (hb : unreserved b = true) : b.toNat < 0x80 ∧
    Char.ofNat b.toNat ∉ (['%', '+', '&', '=', ' '] : Str) := by
  simp only [unreserved, Bool.or_eq_true, Bool.and_eq_true, decide_eq_true_eq, List.mem_cons,
    List.not_mem_nil, or_false] at hb
  refine ⟨by omega, fun hmem => ?_⟩
  have hchar : ∀ c : Char, Char.ofNat b.toNat = c → b.toNat = c.toNat := by
    rintro c rfl
    exact (toNat_byte b).symm
  simp only [List.mem_cons, List.not_mem_nil, or_false] at hmem
  rcases hmem with h | h | h | h | h
  all_goals
    have hn := hchar _ h
    simp only [Char.reduceToNat] at hn
    omega

/-- The bytes that `quote` always leaves as they are. -/
def alwaysSafe : SafeSet := ⟨unreserved, plain_unreserved⟩

/-! ### A form both ways -/

section Form

variable {safe : SafeSet}

theorem parsePair_quotePair (kv : Str × Str) :
    parsePair (quotePair safe kv) = if kv.2 = [] then none else some kv := by
  have hname : '=' ∉ quotePlus safe kv.1 := fun h => (quotePlus_plain h).2.2 rfl
  have hmem : '=' ∈ quotePair safe kv := by simp [quotePair]
  rw [parsePair]
  simp only [quotePair, partition_append hname, unquotePlus_quotePlus]
  rw [← quotePair]
  simp only [hmem, not_true_eq_false, false_or, quotePlus_eq_nil_iff]

theorem not_mem_quotePair (kv : Str × Str) : '&' ∉ quotePair safe kv := by
  rw [quotePair, List.mem_append, List.mem_cons, not_or, not_or]
  exact ⟨fun h => (quotePlus_plain h).2.1 rfl, by decide, fun h => (quotePlus_plain h).2.1 rfl⟩

/-- Blank values are dropped, everything else is read back in its order. -/
theorem parseQsl_urlencode (kvs : List (Str × Str)) :
    parseQsl (urlencode safe kvs) = kvs.filter fun kv => kv.2 ≠ [] := by
  have hpairs : (kvs.map (quotePair safe)).filterMap parsePair =
      kvs.filter fun kv => kv.2 ≠ [] := by
    rw [List.filterMap_map, ← List.filterMap_eq_filter]
    refine List.filterMap_congr fun kv _ => ?_
    rw [Function.comp_apply, parsePair_quotePair]
    by_cases hv : kv.2 = [] <;> simp [Option.guard, hv]
  by_cases hnil : kvs = []
  · subst hnil
    rfl
  · rw [parseQsl, urlencode, List.splitOn_intercalate, hpairs]
    · intro t ht
      obtain ⟨kv, -, rfl⟩ := List.mem_map.mp ht
      exact not_mem_quotePair kv
    · simpa using hnil

/-- The values of a field, blank ones left out. -/
def valuesOf (k : Str) (kvs : List (Str × Str)) : List Str :=
  (kvs.filter fun kv => kv.1 = k ∧ kv.2 ≠ []).map Prod.snd

theorem get_foldl_appendValue (k : Str) (kvs : List (Str × Str)) (d : Dict Str (List Str)) :
    ((kvs.foldl appendValue d).get k).getD [] =
      (d.get k).getD [] ++ (kvs.filter fun kv => kv.1 = k).map Prod.snd := by
  induction kvs generalizing d with
  | nil => simp
  | cons kv kvs ih =>
    rw [List.foldl_cons, ih, appendValue, Dict.get_set]
    by_cases hk : kv.1 = k
    · simp [hk]
    · simp [hk]

theorem get_foldl_ne_nil {k : Str} {kvs : List (Str × Str)} {d : Dict Str (List Str)}
    (hd : ∀ vs, d.get k = some vs → vs ≠ []) :
    ∀ vs, (kvs.foldl appendValue d).get k = some vs → vs ≠ [] := by
  induction kvs generalizing d with
  | nil => exact hd
  | cons kv kvs ih =>
    refine ih fun vs hvs => ?_
    rw [appendValue, Dict.get_set] at hvs
    split_ifs at hvs
    · cases hvs
      simp
    · exact hd vs hvs

/-- A form read back: the values of every field, the fields without any absent. -/
theorem get_parseQs_urlencode (kvs : List (Str × Str)) (k : Str) :
    (parseQs (urlencode safe kvs)).get k =
      if valuesOf k kvs = [] then none else some (valuesOf k kvs) := by
  have hvalues : ((parseQs (urlencode safe kvs)).get k).getD [] = valuesOf k kvs := by
    rw [parseQs, parseQsl_urlencode, get_foldl_appendValue, List.filter_filter, valuesOf]
    simp [Dict.get_empty]
  have hne := @get_foldl_ne_nil k (parseQsl (urlencode safe kvs)) Dict.empty
    (fun vs h => by rw [Dict.get_empty] at h; cases h)
  rw [← hvalues]
  cases hget : (parseQs (urlencode safe kvs)).get k with
  | none => simp
  | some vs => simp [hne vs hget]

end Form

end Lib.FormUrl
