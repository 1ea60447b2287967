import Mathlib.Data.List.DropRight
import Mathlib.Tactic

/-!
# Python text: whitespace, lines, partition

Python's `str` as a list of Unicode scalar values, with the operations line
oriented files are read and written by: `strip`, `splitlines`, `partition`,
`startswith`, the joining of lines by `"\n"`, and the newline translation of a
file opened in text mode. A written line may itself hold line boundaries;
`physicalLines` are the lines it is read back as.
-/

namespace Lib

/-- Python `str` (no lone surrogates). -/
abbrev Str := List Char

instance : Coe String Str := ⟨String.toList⟩

instance : LawfulBEq Str := inferInstance

namespace PyStr

/-! ### Character classes -/

/-- The boundaries of `str.splitlines`. -/
def isLineBreak (c : Char) : Bool :=
  c.val ∈ [0x0a, 0x0b, 0x0c, 0x0d, 0x1c, 0x1d, 0x1e, 0x85, 0x2028, 0x2029]

/-- `str.isspace` of one character: what `str.strip` removes. -/
def isSpace (c : Char) : Bool :=
  isLineBreak c || c.val ∈ [0x09, 0x1f, 0x20, 0xa0, 0x1680, 0x202f, 0x205f, 0x3000] ||
    (0x2000 ≤ c.val && c.val ≤ 0x200a)

theorem isLineBreak_nl : isLineBreak '\n' = true := by decide

theorem isLineBreak_cr : isLineBreak '\r' = true := by decide

/-- No character of the text ends a line. -/
def BreakFree (t : Str) : Prop := ∀ c ∈ t, isLineBreak c = false

instance (t : Str) : Decidable (BreakFree t) :=
  List.decidableBAll (fun c => isLineBreak c = false) t

@[simp] theorem breakFree_nil : BreakFree [] := by simp [BreakFree]

@[simp] theorem breakFree_cons {c : Char} {t : Str} :
    BreakFree (c :: t) ↔ isLineBreak c = false ∧ BreakFree t := by
  simp [BreakFree]

@[simp] theorem breakFree_append {t u : Str} :
    BreakFree (t ++ u) ↔ BreakFree t ∧ BreakFree u := by
  simp only [BreakFree, List.mem_append]
  exact ⟨fun h => ⟨fun c hc => h c (Or.inl hc), fun c hc => h c (Or.inr hc)⟩,
    fun h c hc => hc.elim (h.1 c) (h.2 c)⟩

def SpaceFree (t : Str) : Prop := ∀ c ∈ t, isSpace c = false

instance (t : Str) : Decidable (SpaceFree t) :=
  List.decidableBAll (fun c => isSpace c = false) t

theorem SpaceFree.breakFree {t : Str} (h : SpaceFree t) : BreakFree t := by
  intro c hc
  have hspace := h c hc
  rw [isSpace, Bool.or_eq_false_iff, Bool.or_eq_false_iff] at hspace
  exact hspace.1.1

/-- `str.lower` on ASCII letters; no other character lowers to a single one of
them but the Kelvin sign, to `k`. -/
def lower (t : Str) : Str := t.map Char.toLower

/-! ### strip -/

def lstrip (t : Str) : Str := t.dropWhile isSpace

def strip (t : Str) : Str := (lstrip t).rdropWhile isSpace

def Stripped (t : Str) : Prop := strip t = t

instance (t : Str) : Decidable (Stripped t) := inferInstanceAs (Decidable (strip t = t))

theorem rdropWhile_sublist (t : Str) : (t.rdropWhile isSpace).Sublist t :=
  (List.rdropWhile_prefix isSpace t).sublist

theorem strip_sublist (t : Str) : (strip t).Sublist t :=
  (rdropWhile_sublist _).trans (List.dropWhile_suffix _).sublist

theorem BreakFree.sublist {t u : Str} (h : BreakFree u) (hs : t.Sublist u) : BreakFree t :=
  fun c hc => h c (hs.subset hc)

theorem BreakFree.strip {t : Str} (h : BreakFree t) : BreakFree (strip t) :=
  h.sublist (strip_sublist t)

theorem stripped_iff (t : Str) :
    Stripped t ↔ (∀ h : t ≠ [], isSpace (t.head h) = false) ∧
      ∀ h : t ≠ [], isSpace (t.getLast h) = false := by
  constructor
  · intro hs
    have hl : lstrip t = t := by
      have h1 : (lstrip t).length ≤ t.length := (List.dropWhile_suffix _).length_le
      have h2 : (strip t).length ≤ (lstrip t).length := (rdropWhile_sublist _).length_le
      have h3 : (strip t).length = t.length := congrArg List.length hs
      exact (List.dropWhile_suffix isSpace).eq_of_length (by simp only [lstrip] at *; omega)
    have hr : t.rdropWhile isSpace = t := by
      have hs' : (lstrip t).rdropWhile isSpace = t := hs
      rwa [hl] at hs'
    constructor
    · intro h
      have := List.dropWhile_eq_self_iff.mp hl (List.length_pos_iff.mpr h)
      simpa [List.head_eq_getElem] using this
    · intro h
      simpa using List.rdropWhile_eq_self_iff.mp hr h
  · rintro ⟨hh, hl⟩
    have h1 : lstrip t = t := by
      apply List.dropWhile_eq_self_iff.mpr
      intro hpos
      have := hh (List.length_pos_iff.mp hpos)
      simpa [List.head_eq_getElem] using this
    simp only [Stripped, strip, h1]
    exact List.rdropWhile_eq_self_iff.mpr fun h => by simpa using hl h

theorem SpaceFree.stripped {t : Str} (h : SpaceFree t) : Stripped t :=
  (stripped_iff t).mpr ⟨fun hne => h _ (List.head_mem hne), fun hne => h _ (List.getLast_mem hne)⟩

theorem isDigit_of_mem_toDigits {n : ℕ} {c : Char} (h : c ∈ Nat.toDigits 10 n) :
    c.isDigit = true := Nat.isDigit_of_mem_toDigits (by decide) (by decide) h

theorem isSpace_of_isDigit {c : Char} (h : c.isDigit = true) : isSpace c = false := by
  rw [Char.isDigit, Bool.and_eq_true, decide_eq_true_iff, decide_eq_true_iff] at h
  have hlow : 48 ≤ c.val.toNat := h.1
  have hhigh : c.val.toNat ≤ 57 := h.2
  have hne : ∀ n : UInt32, n.toNat < 48 ∨ 57 < n.toNat → c.val ≠ n := by
    rintro n hn rfl
    omega
  have hlt : ¬ (0x2000 : UInt32) ≤ c.val := by
    intro hle
    have hle' : 0x2000 ≤ c.val.toNat := hle
    omega
  simp [isSpace, isLineBreak, hne, hlt]

theorem spaceFree_toDigits (n : ℕ) : SpaceFree (Nat.toDigits 10 n) := fun _ hc =>
  isSpace_of_isDigit (isDigit_of_mem_toDigits hc)

theorem strip_strip (t : Str) : strip (strip t) = strip t := by
  apply (stripped_iff (strip t)).mpr
  have hlast : ∀ h : strip t ≠ [], isSpace ((strip t).getLast h) = false := fun h =>
    Bool.eq_false_iff.mpr (List.rdropWhile_last_not isSpace (lstrip t) h)
  refine ⟨fun h => ?_, hlast⟩
  have hne : lstrip t ≠ [] := fun h0 => h (by simp [strip, h0])
  have hpre : (strip t) <+: lstrip t := List.rdropWhile_prefix isSpace _
  have hhead : (strip t).head h = (lstrip t).head hne := by
    obtain ⟨r, hr⟩ := hpre
    simp only [← hr]
    exact (List.head_append_of_ne_nil h).symm
  rw [hhead]
  exact List.head_dropWhile_not isSpace hne

theorem stripped_strip (t : Str) : Stripped (strip t) := strip_strip t

theorem Stripped.head {c : Char} {t : Str} (h : Stripped (c :: t)) : isSpace c = false :=
  ((stripped_iff _).mp h).1 (List.cons_ne_nil c t)

theorem rdropWhile_append_cons {c : Char} (hc : isSpace c = false) (t u : Str) :
    (t ++ c :: u).rdropWhile isSpace = t ++ c :: u.rdropWhile isSpace := by
  induction u using List.reverseRecOn with
  | nil =>
    rw [List.rdropWhile_nil]
    exact List.rdropWhile_concat_neg isSpace t c (by simp [hc])
  | append_singleton u d ih =>
    have hassoc : t ++ c :: (u ++ [d]) = (t ++ c :: u) ++ [d] := by simp
    rw [hassoc]
    by_cases hd : isSpace d = true
    · rw [List.rdropWhile_concat_pos isSpace _ d hd, List.rdropWhile_concat_pos isSpace _ d hd, ih]
    · rw [List.rdropWhile_concat_neg isSpace _ d hd, List.rdropWhile_concat_neg isSpace _ d hd]
      simp

theorem strip_append_space {c : Char} (hc : isSpace c = true) (t : Str) :
    strip (t ++ [c]) = strip t := by
  simp only [strip, lstrip, List.dropWhile_append]
  split
  · rename_i h
    simp [List.isEmpty_iff.mp h, hc]
  · exact List.rdropWhile_concat_pos isSpace _ c hc

theorem strip_rdropWhile (t : Str) : strip (t.rdropWhile isSpace) = strip t := by
  induction t using List.reverseRecOn with
  | nil => rfl
  | append_singleton t c ih =>
    by_cases hc : isSpace c = true
    · rw [List.rdropWhile_concat_pos isSpace t c hc, ih, strip_append_space hc]
    · rw [List.rdropWhile_concat_neg isSpace t c hc]

theorem count_dropWhile {c : Char} (hc : isSpace c = false) (t : Str) :
    (t.dropWhile isSpace).count c = t.count c := by
  have hnot : c ∉ t.takeWhile isSpace := fun hmem => by
    rw [List.mem_takeWhile_imp hmem] at hc
    cases hc
  conv_rhs => rw [← List.takeWhile_append_dropWhile (p := isSpace) (l := t)]
  rw [List.count_append, List.count_eq_zero_of_not_mem hnot, Nat.zero_add]

theorem count_strip {c : Char} (hc : isSpace c = false) (t : Str) :
    (strip t).count c = t.count c := by
  rw [strip, lstrip, List.rdropWhile, List.count_reverse, count_dropWhile hc, List.count_reverse,
    count_dropWhile hc]

/-! ### partition -/

/-- `str.partition(sep)` for a one character separator: the text before the first
`sep` and the text after it. -/
def partition (sep : Char) (t : Str) : Str × Str :=
  (t.takeWhile (· != sep), (t.dropWhile (· != sep)).drop 1)

theorem partition_append {sep : Char} {t : Str} (h : sep ∉ t) (u : Str) :
    partition sep (t ++ sep :: u) = (t, u) := by
  have hall : ∀ c ∈ t, (c != sep) = true := fun c hc =>
    bne_iff_ne.mpr fun he => h (he ▸ hc)
  simp [partition, List.takeWhile_append_of_pos hall, List.dropWhile_append_of_pos hall]

theorem partition_fst_not_mem (sep : Char) (t : Str) : sep ∉ (partition sep t).1 := by
  intro h
  simpa using List.mem_takeWhile_imp h

theorem partition_fst_sublist (sep : Char) (t : Str) : (partition sep t).1.Sublist t :=
  (List.takeWhile_prefix _).sublist

theorem partition_snd_sublist (sep : Char) (t : Str) : (partition sep t).2.Sublist t :=
  (List.drop_sublist 1 _).trans (List.dropWhile_suffix _).sublist

/-! ### rsplit -/

/-- The text before the last `sep` and the text after it. -/
def rpartition (sep : Char) (t : Str) : Option (Str × Str) :=
  if sep ∈ t then
    some ((partition sep t.reverse).2.reverse, (partition sep t.reverse).1.reverse)
  else none

/-- `str.rsplit(sep, maxsplit)` for a one character separator. -/
def rsplit (sep : Char) : ℕ → Str → List Str
  | 0, t => [t]
  | maxsplit + 1, t =>
    match rpartition sep t with
    | none => [t]
    | some (u, v) => rsplit sep maxsplit u ++ [v]

theorem rpartition_append {sep : Char} {v : Str} (h : sep ∉ v) (u : Str) :
    rpartition sep (u ++ sep :: v) = some (u, v) := by
  have hreverse : (u ++ sep :: v).reverse = v.reverse ++ sep :: u.reverse := by simp
  rw [rpartition, if_pos (List.mem_append_right u (List.mem_cons_self ..)), hreverse,
    partition_append (by rwa [List.mem_reverse])]
  simp

theorem rsplit_append {sep : Char} {v : Str} (h : sep ∉ v) (maxsplit : ℕ) (u : Str) :
    rsplit sep (maxsplit + 1) (u ++ sep :: v) = rsplit sep maxsplit u ++ [v] := by
  rw [rsplit, rpartition_append h]

theorem rsplit_of_not_mem {sep : Char} {t : Str} (h : sep ∉ t) (maxsplit : ℕ) :
    rsplit sep maxsplit t = [t] := by
  cases maxsplit with
  | zero => rfl
  | succ n => rw [rsplit, rpartition, if_neg h]

/-! ### Lines -/

def consHead (c : Char) : List Str → List Str
  | [] => [[c]]
  | l :: ls => (c :: l) :: ls

/-- `str.splitlines()`; the flag says that a carriage return was just read, so
that `"\r\n"` is one boundary. -/
def splitlinesFrom : Bool → Str → List Str
  | _, [] => []
  | cr, c :: t =>
    if cr && c == '\n' then splitlinesFrom false t
    else if isLineBreak c then [] :: splitlinesFrom (c == '\r') t
    else consHead c (splitlinesFrom false t)

def splitlines (t : Str) : List Str := splitlinesFrom false t

/-- Newline translation of a file opened in text mode: `"\r\n"` and `"\r"` are
read as `"\n"`. -/
def universalNewlinesFrom : Bool → Str → Str
  | _, [] => []
  | cr, c :: t =>
    if cr && c == '\n' then universalNewlinesFrom false t
    else if c == '\r' then '\n' :: universalNewlinesFrom true t
    else c :: universalNewlinesFrom false t

def universalNewlines (t : Str) : Str := universalNewlinesFrom false t

/-- `"\n".join(lines) + "\n"`: the text that the line rewriters write. -/
def unlines (ls : List Str) : Str := List.intercalate ['\n'] ls ++ ['\n']

/-- The lines that one written line is read back as. -/
def physicalLines (l : Str) : List Str := splitlines (l ++ ['\n'])

theorem splitlinesFrom_universalNewlinesFrom (cr : Bool) (t : Str) :
    splitlinesFrom false (universalNewlinesFrom cr t) = splitlinesFrom cr t := by
  induction t generalizing cr with
  | nil => rfl
  | cons c t ih =>
    simp only [universalNewlinesFrom, splitlinesFrom]
    split_ifs with h1 h2 h3 h3
    · exact ih false
    · simp [splitlinesFrom, isLineBreak_nl, ih, h2]
    · exact absurd (by rw [beq_iff_eq.mp h2]; exact isLineBreak_cr) h3
    · simp [splitlinesFrom, h3, ih, Bool.eq_false_iff.mpr h2]
    · simp [splitlinesFrom, h3, ih]

theorem splitlines_universalNewlines (t : Str) :
    splitlines (universalNewlines t) = splitlines t :=
  splitlinesFrom_universalNewlinesFrom false t

theorem consHead_append {c : Char} {ls ms : List Str} (h : ls ≠ []) :
    consHead c (ls ++ ms) = consHead c ls ++ ms := by
  cases ls with
  | nil => exact absurd rfl h
  | cons l ls => rfl

theorem consHead_ne_nil (c : Char) (ls : List Str) : consHead c ls ≠ [] := by
  cases ls <;> simp [consHead]

theorem splitlinesFrom_nl_ne_nil (t : Str) : splitlinesFrom false (t ++ ['\n']) ≠ [] := by
  cases t with
  | nil => simp [splitlinesFrom, isLineBreak_nl]
  | cons c t =>
    simp only [List.cons_append, splitlinesFrom, Bool.false_and, Bool.false_eq_true, if_false]
    split
    · simp
    · exact consHead_ne_nil c _

theorem splitlinesFrom_append_nl (cr : Bool) (t u : Str) :
    splitlinesFrom cr (t ++ '\n' :: u) =
      splitlinesFrom cr (t ++ ['\n']) ++ splitlinesFrom false u := by
  induction t generalizing cr with
  | nil => cases cr <;> simp [splitlinesFrom, isLineBreak_nl]
  | cons c t ih =>
    simp only [List.cons_append, splitlinesFrom]
    split_ifs
    · exact ih false
    · rw [ih]; rfl
    · rw [ih, consHead_append (splitlinesFrom_nl_ne_nil t)]

theorem splitlines_append_nl (t u : Str) :
    splitlines (t ++ '\n' :: u) = physicalLines t ++ splitlines u :=
  splitlinesFrom_append_nl false t u

theorem splitlines_flatMap_nl {α : Type*} (line : α → Str) (xs : List α) :
    splitlines (xs.flatMap fun x => line x ++ ['\n']) =
      xs.flatMap fun x => physicalLines (line x) := by
  induction xs with
  | nil => rfl
  | cons x xs ih =>
    rw [List.flatMap_cons, List.flatMap_cons, List.append_assoc, List.singleton_append,
      splitlines_append_nl, ih]

theorem unlines_cons_cons (l m : Str) (ls : List Str) :
    unlines (l :: m :: ls) = l ++ '\n' :: unlines (m :: ls) := by
  simp [unlines, List.intercalate]

theorem splitlines_unlines {ls : List Str} (h : ls ≠ []) :
    splitlines (unlines ls) = ls.flatMap physicalLines := by
  induction ls with
  | nil => exact absurd rfl h
  | cons l ls ih =>
    cases ls with
    | nil => simp [unlines, List.intercalate, physicalLines]
    | cons m ls =>
      rw [unlines_cons_cons, splitlines_append_nl, ih (List.cons_ne_nil m ls)]
      rfl

theorem splitlines_unlines_nil : splitlines (unlines []) = [[]] := by decide

theorem splitlinesFrom_breakFree (cr : Bool) (t : Str) :
    ∀ l ∈ splitlinesFrom cr t, BreakFree l := by
  induction t generalizing cr with
  | nil => simp [splitlinesFrom]
  | cons c t ih =>
    simp only [splitlinesFrom]
    split_ifs with h1 h2
    · exact ih false
    · intro l hl
      rcases List.mem_cons.mp hl with rfl | hl
      · exact breakFree_nil
      · exact ih _ l hl
    · intro l hl
      have hih := ih false
      cases hs : splitlinesFrom false t with
      | nil =>
        simp only [hs, consHead, List.mem_singleton] at hl
        simp [hl, h2]
      | cons m ms =>
        simp only [hs, consHead, List.mem_cons] at hl hih
        rcases hl with rfl | hl
        · exact breakFree_cons.mpr ⟨by simpa using h2, hih m (Or.inl rfl)⟩
        · exact hih l (Or.inr hl)

theorem splitlines_breakFree (t : Str) : ∀ l ∈ splitlines t, BreakFree l :=
  splitlinesFrom_breakFree false t

theorem splitlinesFrom_append_breakFree {t : Str} (h : BreakFree t) (u m : Str) (ms : List Str)
    (hu : splitlinesFrom false u = m :: ms) :
    splitlinesFrom false (t ++ u) = (t ++ m) :: ms := by
  induction t with
  | nil => exact hu
  | cons c t ih =>
    have hc := breakFree_cons.mp h
    simp [splitlinesFrom, hc.1, ih hc.2, consHead]

theorem physicalLines_of_breakFree {t : Str} (h : BreakFree t) : physicalLines t = [t] := by
  have hnl : splitlinesFrom false ['\n'] = [[]] := by decide
  have := splitlinesFrom_append_breakFree h ['\n'] [] [] hnl
  simpa [physicalLines, splitlines] using this

theorem flatMap_physicalLines {ls : List Str} (h : ∀ l ∈ ls, BreakFree l) :
    ls.flatMap physicalLines = ls := by
  induction ls with
  | nil => rfl
  | cons l ls ih =>
    rw [List.flatMap_cons, physicalLines_of_breakFree (h l (List.mem_cons_self ..)),
      ih fun x hx => h x (List.mem_cons_of_mem l hx)]
    rfl

theorem physicalLines_append_eq {t u m : Str} {ms : List Str} (h : BreakFree t)
    (hu : physicalLines u = m :: ms) : physicalLines (t ++ u) = (t ++ m) :: ms := by
  rw [physicalLines, splitlines, List.append_assoc]
  exact splitlinesFrom_append_breakFree h _ m ms hu

theorem physicalLines_ne_nil (t : Str) : physicalLines t ≠ [] := splitlinesFrom_nl_ne_nil t

theorem mem_of_mem_splitlinesFrom (cr : Bool) (t : Str) :
    ∀ l ∈ splitlinesFrom cr t, ∀ c ∈ l, c ∈ t := by
  induction t generalizing cr with
  | nil =>
    intro l hl
    cases hl
  | cons c t ih =>
    intro l hl d hd
    rw [splitlinesFrom] at hl
    split_ifs at hl
    · exact List.mem_cons_of_mem c (ih false l hl d hd)
    · rcases List.mem_cons.mp hl with rfl | hl
      · cases hd
      · exact List.mem_cons_of_mem c (ih _ l hl d hd)
    · cases hs : splitlinesFrom false t with
      | nil =>
        rw [hs, consHead, List.mem_singleton] at hl
        rw [hl, List.mem_singleton] at hd
        rw [hd]
        exact List.mem_cons_self ..
      | cons m ms =>
        have hih := ih false
        rw [hs, consHead, List.mem_cons] at hl
        rw [hs] at hih
        rcases hl with rfl | hl
        · rcases List.mem_cons.mp hd with rfl | hd
          · exact List.mem_cons_self ..
          · exact List.mem_cons_of_mem c (hih m (List.mem_cons_self ..) d hd)
        · exact List.mem_cons_of_mem c (hih l (List.mem_cons_of_mem m hl) d hd)

theorem physicalLines_append {t : Str} (h : BreakFree t) (u : Str) :
    ∃ m ms, physicalLines (t ++ u) = (t ++ m) :: ms := by
  obtain ⟨m, ms, hm⟩ := List.exists_cons_of_ne_nil (splitlinesFrom_nl_ne_nil u)
  refine ⟨m, ms, ?_⟩
  simp only [physicalLines, splitlines, List.append_assoc]
  exact splitlinesFrom_append_breakFree h _ m ms hm

/-! ### UTF-8 -/

def encodeUtf8 (t : Str) : List UInt8 := t.flatMap String.utf8EncodeChar

/-- `bytes.decode()`; `none` is the `UnicodeDecodeError`. -/
def decodeUtf8 (bytes : List UInt8) : Option Str :=
  bytes.toByteArray.utf8Decode?.map Array.toList

theorem decodeUtf8_encodeUtf8 (t : Str) : decodeUtf8 (encodeUtf8 t) = some t := by
  have hbytes : (encodeUtf8 t).toByteArray = t.utf8Encode := rfl
  rw [decodeUtf8, hbytes, List.utf8Decode?_utf8Encode]
  rfl

end PyStr
end Lib
