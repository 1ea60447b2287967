import HadcdAgent.Lib.PyStr

/-!
# Decoding UTF-8 with replacement

`bytes.decode("utf-8", errors="replace")`: a malformed sequence is replaced by U+FFFD up
to the byte that cannot go on with it.
-/

namespace Lib.PyStr

def replacement : Char := Char.ofNat 0xFFFD

def isContinuation (b : UInt8) : Bool := 0x80 ≤ b.toNat && b.toNat < 0xC0

/-- Whether `b` goes on with the first byte `a`: no overlong form, no surrogate, nothing
above U+10FFFF. -/
def follows (a b : UInt8) : Bool :=
  isContinuation b && !(a.toNat = 0xE0 && b.toNat < 0xA0) && !(a.toNat = 0xED && 0xA0 ≤ b.toNat) &&
    !(a.toNat = 0xF0 && b.toNat < 0x90) && !(a.toNat = 0xF4 && 0x90 ≤ b.toNat)

/-- The character of these payload bits, the continuation bytes last. -/
def scalar (first : ℕ) (continuations : List UInt8) : Char :=
  Char.ofNat (continuations.foldl (fun v b => v * 64 + b.toNat % 64) first)

def decodeReplace : List UInt8 → Str
  | [] => []
  | a :: rest =>
    if a.toNat < 0x80 then Char.ofNat a.toNat :: decodeReplace rest
    else if a.toNat < 0xC2 || 0xF4 < a.toNat then replacement :: decodeReplace rest
    else
      match rest with
      | [] => [replacement]
      | b :: rest₁ =>
        if !follows a b then replacement :: decodeReplace (b :: rest₁)
        else if a.toNat < 0xE0 then scalar (a.toNat % 32) [b] :: decodeReplace rest₁
        else
          match rest₁ with
          | [] => [replacement]
          | c :: rest₂ =>
            if !isContinuation c then replacement :: decodeReplace (c :: rest₂)
            else if a.toNat < 0xF0 then scalar (a.toNat % 16) [b, c] :: decodeReplace rest₂
            else
              match rest₂ with
              | [] => [replacement]
              | d :: rest₃ =>
                if !isContinuation d then replacement :: decodeReplace (d :: rest₃)
                else scalar (a.toNat % 8) [b, c, d] :: decodeReplace rest₃

theorem toNat_ofNat_of_lt {n : ℕ} (h : n < 256) : (UInt8.ofNat n).toNat = n := by
  rw [UInt8.toNat_ofNat']
  exact Nat.mod_eq_of_lt h

theorem ofNat_val (c : Char) : Char.ofNat c.val.toNat = c := Char.ofNat_toNat c

/-- A scalar value is below U+D800 or between U+DFFF and U+110000. -/
theorem val_bounds (c : Char) :
    c.val.toNat < 0xD800 ∨ 0xDFFF < c.val.toNat ∧ c.val.toNat < 0x110000 := c.valid

/-! ### One character -/

section Character

variable {a b c d : UInt8} (rest : List UInt8)

theorem decodeReplace_one (ha : a.toNat < 0x80) :
    decodeReplace (a :: rest) = Char.ofNat a.toNat :: decodeReplace rest := by
  rw [decodeReplace.eq_def]
  exact if_pos ha

theorem not_outside (ha : 0xC2 ≤ a.toNat) (ha' : a.toNat ≤ 0xF4) :
    ¬ (a.toNat < 0xC2 || 0xF4 < a.toNat) = true := by
  rw [Bool.or_eq_true, decide_eq_true_iff, decide_eq_true_iff]
  omega

theorem decodeReplace_two (ha : 0xC2 ≤ a.toNat) (ha' : a.toNat < 0xE0) (hb : follows a b = true) :
    decodeReplace (a :: b :: rest) = scalar (a.toNat % 32) [b] :: decodeReplace rest := by
  rw [decodeReplace.eq_def]
  simp only [hb, Bool.not_true, Bool.false_eq_true, if_false]
  rw [if_neg (by omega), if_neg (not_outside ha (by omega)), if_pos ha']

theorem decodeReplace_three (ha : 0xE0 ≤ a.toNat) (ha' : a.toNat < 0xF0)
    (hb : follows a b = true) (hc : isContinuation c = true) :
    decodeReplace (a :: b :: c :: rest) = scalar (a.toNat % 16) [b, c] :: decodeReplace rest := by
  rw [decodeReplace.eq_def]
  simp only [hb, hc, Bool.not_true, Bool.false_eq_true, if_false]
  rw [if_neg (by omega), if_neg (not_outside (by omega) (by omega)), if_neg (by omega), if_pos ha']

theorem decodeReplace_four (ha : 0xF0 ≤ a.toNat) (ha' : a.toNat ≤ 0xF4)
    (hb : follows a b = true) (hc : isContinuation c = true) (hd : isContinuation d = true) :
    decodeReplace (a :: b :: c :: d :: rest) =
      scalar (a.toNat % 8) [b, c, d] :: decodeReplace rest := by
  rw [decodeReplace.eq_def]
  simp only [hb, hc, hd, Bool.not_true, Bool.false_eq_true, if_false]
  rw [if_neg (by omega), if_neg (not_outside (by omega) (by omega)), if_neg (by omega),
    if_neg (by omega)]

theorem isContinuation_of_toNat {n : ℕ} (hb : b.toNat = n + 128) (hn : n < 64) :
    isContinuation b = true := by
  simp only [isContinuation, hb, Bool.and_eq_true, decide_eq_true_eq]
  omega

end Character

/-- What one character is encoded as is read back as this character. -/
theorem decodeReplace_encodeChar (c : Char) (rest : List UInt8) :
    decodeReplace (String.utf8EncodeChar c ++ rest) = c :: decodeReplace rest := by
  have hbounds := val_bounds c
  have hchar := ofNat_val c
  rw [String.utf8EncodeChar]
  generalize c.val.toNat = v at hbounds hchar
  have hlast : (UInt8.ofNat (v % 64 + 128)).toNat = v % 64 + 128 := toNat_ofNat_of_lt (by omega)
  have hmid : (UInt8.ofNat (v / 64 % 64 + 128)).toNat = v / 64 % 64 + 128 :=
    toNat_ofNat_of_lt (by omega)
  have hhigh : (UInt8.ofNat (v / 4096 % 64 + 128)).toNat = v / 4096 % 64 + 128 :=
    toNat_ofNat_of_lt (by omega)
  have hcont := isContinuation_of_toNat hlast (by omega)
  have hcont' := isContinuation_of_toNat hmid (by omega)
  have hcont'' := isContinuation_of_toNat hhigh (by omega)
  split_ifs with h1 h2 h3
  · have ha : (UInt8.ofNat v).toNat = v := toNat_ofNat_of_lt (by omega)
    rw [List.singleton_append, decodeReplace_one _ (by omega), ha, hchar]
  · have ha : (UInt8.ofNat (v / 64 % 32 + 192)).toNat = v / 64 + 192 := by
      rw [toNat_ofNat_of_lt (by omega)]
      omega
    have hfollows : follows (UInt8.ofNat (v / 64 % 32 + 192)) (UInt8.ofNat (v % 64 + 128)) = true := by
      simp only [follows, hcont, ha]
      simp
      omega
    simp only [List.cons_append, List.nil_append]
    rw [decodeReplace_two _ (by omega) (by omega) hfollows, ha, ← hchar]
    refine congrArg (Char.ofNat · :: decodeReplace rest) ?_
    simp only [List.foldl_cons, List.foldl_nil, hlast]
    omega
  · have ha : (UInt8.ofNat (v / 4096 % 16 + 224)).toNat = v / 4096 + 224 := by
      rw [toNat_ofNat_of_lt (by omega)]
      omega
    have hfollows : follows (UInt8.ofNat (v / 4096 % 16 + 224)) (UInt8.ofNat (v / 64 % 64 + 128)) =
        true := by
      simp only [follows, hcont', ha, hmid]
      simp
      omega
    simp only [List.cons_append, List.nil_append]
    rw [decodeReplace_three _ (by omega) (by omega) hfollows hcont, ha, ← hchar]
    refine congrArg (Char.ofNat · :: decodeReplace rest) ?_
    simp only [List.foldl_cons, List.foldl_nil, hlast, hmid]
    omega
  · have ha : (UInt8.ofNat (v / 262144 % 8 + 240)).toNat = v / 262144 + 240 := by
      rw [toNat_ofNat_of_lt (by omega)]
      omega
    have hfollows : follows (UInt8.ofNat (v / 262144 % 8 + 240)) (UInt8.ofNat (v / 4096 % 64 + 128)) =
        true := by
      simp only [follows, hcont'', ha, hhigh]
      simp
      omega
    simp only [List.cons_append, List.nil_append]
    rw [decodeReplace_four _ (by omega) (by omega) hfollows hcont' hcont, ha, ← hchar]
    refine congrArg (Char.ofNat · :: decodeReplace rest) ?_
    simp only [List.foldl_cons, List.foldl_nil, hlast, hmid, hhigh]
    omega

theorem decodeReplace_encodeUtf8_append (t : Str) (rest : List UInt8) :
    decodeReplace (encodeUtf8 t ++ rest) = t ++ decodeReplace rest := by
  induction t with
  | nil => rfl
  | cons c t ih =>
    have hcons : encodeUtf8 (c :: t) ++ rest =
        String.utf8EncodeChar c ++ (encodeUtf8 t ++ rest) := by
      rw [encodeUtf8, List.flatMap_cons, List.append_assoc, encodeUtf8]
    rw [hcons, decodeReplace_encodeChar, ih, List.cons_append]

theorem decodeReplace_encodeUtf8 (t : Str) : decodeReplace (encodeUtf8 t) = t := by
  have h := decodeReplace_encodeUtf8_append t []
  rwa [List.append_nil, decodeReplace, List.append_nil] at h

end Lib.PyStr
