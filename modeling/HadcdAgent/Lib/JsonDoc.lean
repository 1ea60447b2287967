import HadcdAgent.Lib.JsonText

/-!
# JSON documents

`json.dumps` at any layout and `json.loads`: a document is read back as the value it was
written from, and what is cut off before its end is no document. The limits on nesting and
on the digits of an integer are left out.
-/

namespace Lib.JsonText

/-! ### Writing -/

def isWs (c : Char) : Bool := c ∈ ([' ', '\t', '\n', '\r'] : Str)

def Blank (s : Str) : Prop := s.all isWs = true

/-- The whitespace that a layout puts behind a bracket, behind a comma, before the closing
bracket and behind a colon, by the level of nesting. -/
structure Layout where
  opening : ℕ → Str
  gap : ℕ → Str
  closing : ℕ → Str
  colon : Str
  blank_opening : ∀ level, Blank (opening level)
  blank_gap : ∀ level, Blank (gap level)
  blank_closing : ∀ level, Blank (closing level)
  blank_colon : Blank colon

/-- `json.dumps` without arguments. -/
def spaced : Layout where
  opening _ := []
  gap _ := [' ']
  closing _ := []
  colon := [' ']
  blank_opening _ := rfl
  blank_gap _ := rfl
  blank_closing _ := rfl
  blank_colon := rfl

def newline (width level : ℕ) : Str := '\n' :: List.replicate (width * level) ' '

theorem blank_newline (width level : ℕ) : Blank (newline width level) := by
  rw [Blank, newline, List.all_cons, List.all_replicate]
  simp [isWs]

/-- `indent=width`. -/
def indented (width : ℕ) : Layout where
  opening level := newline width (level + 1)
  gap level := newline width (level + 1)
  closing := newline width
  colon := [' ']
  blank_opening _ := blank_newline ..
  blank_gap _ := blank_newline ..
  blank_closing _ := blank_newline ..
  blank_colon := rfl

variable (fl : FloatText) (lay : Layout)

def floatText : PyFloat → Str
  | .fin q => fl.repr q
  | .inf => "Infinity".toList
  | .negInf => "-Infinity".toList
  | .nan => "NaN".toList

mutual

def dumps (level : ℕ) : Json → Str
  | .null => "null".toList
  | .bool true => "true".toList
  | .bool false => "false".toList
  | .int n => reprInt n
  | .float x => floatText fl x
  | .str s => quote s
  | .arr [] => "[]".toList
  | .arr (x :: xs) => '[' :: (lay.opening level ++ (dumps (level + 1) x ++ dumpsItems level xs))
  | .obj [] => "\x7b\x7d".toList
  | .obj ((k, x) :: kvs) => '\x7b' :: (lay.opening level ++
    (quote k ++ ':' :: (lay.colon ++ (dumps (level + 1) x ++ dumpsEntries level kvs))))

/-- Behind an item. -/
def dumpsItems (level : ℕ) : List Json → Str
  | [] => lay.closing level ++ [']']
  | x :: xs => ',' :: (lay.gap level ++ (dumps (level + 1) x ++ dumpsItems level xs))

def dumpsEntries (level : ℕ) : List (Str × Json) → Str
  | [] => lay.closing level ++ ['\x7d']
  | (k, x) :: kvs => ',' :: (lay.gap level ++
    (quote k ++ ':' :: (lay.colon ++ (dumps (level + 1) x ++ dumpsEntries level kvs))))

end

/-! ### Reading -/

def skipWs (text : Str) : Str := text.dropWhile isWs

def literals : List (Str × Json) :=
  [("null", .null), ("true", .bool true), ("false", .bool false), ("NaN", .float .nan),
    ("Infinity", .float .inf), ("-Infinity", .float .negInf)]

def scanLiteral (text : Str) : Option (Json × Str) :=
  (literals.find? fun l => l.1.isPrefixOf text).map fun l => (l.2, text.drop l.1.length)

def scanAtom (text : Str) : Option (Json × Str) :=
  match scanNumber fl text with
  | some r => some r
  | none => scanLiteral text

/-- A key, up to its value. -/
def scanKey : Str → Option (Str × Str)
  | '"' :: rest =>
    match scanString rest with
    | none => none
    | some (k, rest) =>
      match skipWs rest with
      | ':' :: rest => some (k, skipWs rest)
      | _ => none
  | _ => none

/-- Of two entries with one key the later one holds. -/
def dictOf (kvs : List (Str × Json)) : List (Str × Json) :=
  kvs.foldl (fun d kv => assign kv.1 kv.2 d) []

mutual

/-- The value at the beginning of a text. -/
def scanOnce : ℕ → Str → Option (Json × Str)
  | 0, _ => none
  | fuel + 1, text =>
    match text with
    | '"' :: rest => (scanString rest).map fun r => (.str r.1, r.2)
    | '[' :: rest =>
      match skipWs rest with
      | ']' :: rest => some (.arr [], rest)
      | rest => (scanItems fuel rest).map fun r => (.arr r.1, r.2)
    | '\x7b' :: rest =>
      match skipWs rest with
      | '\x7d' :: rest => some (.obj [], rest)
      | rest => (scanEntries fuel rest).map fun r => (.obj (dictOf r.1), r.2)
    | text => scanAtom fl text

def scanItems : ℕ → Str → Option (List Json × Str)
  | 0, _ => none
  | fuel + 1, text =>
    match scanOnce fuel text with
    | none => none
    | some (x, rest) =>
      match skipWs rest with
      | ']' :: rest => some ([x], rest)
      | ',' :: rest => (scanItems fuel (skipWs rest)).map fun r => (x :: r.1, r.2)
      | _ => none

def scanEntries : ℕ → Str → Option (List (Str × Json) × Str)
  | 0, _ => none
  | fuel + 1, text =>
    match scanKey text with
    | none => none
    | some (k, rest) =>
      match scanOnce fuel rest with
      | none => none
      | some (x, rest) =>
        match skipWs rest with
        | '\x7d' :: rest => some ([(k, x)], rest)
        | ',' :: rest => (scanEntries fuel (skipWs rest)).map fun r => ((k, x) :: r.1, r.2)
        | _ => none

end

def loads (text : Str) : Loads :=
  match scanOnce fl text.length (skipWs text) with
  | none => .notJson
  | some (v, rest) => if skipWs rest = [] then .value v else .notJson

/-! ### Atoms -/

variable {fl lay}

theorem skipWs_blank {ws : Str} (h : Blank ws) (rest : Str) : skipWs (ws ++ rest) = skipWs rest := by
  rw [skipWs, List.dropWhile_append_of_pos (List.all_eq_true.mp h), skipWs]

theorem skipWs_of_not {c : Char} (h : isWs c = false) (rest : Str) :
    skipWs (c :: rest) = c :: rest := List.dropWhile_cons_of_neg (by simp [h])

theorem isNumberChar_of_isWs {c : Char} (h : isWs c = true) : isNumberChar c = false := by
  rw [isWs, decide_eq_true_iff] at h
  simp only [List.mem_cons, List.not_mem_nil, or_false] at h
  rcases h with rfl | rfl | rfl | rfl <;> decide

/-- What may stand behind a number. -/
def Follows (rest : Str) : Prop := ∀ c ∈ rest.head?, isNumberChar c = false

theorem follows_cons {c : Char} (h : isNumberChar c = false) (rest : Str) : Follows (c :: rest) := by
  rintro d ⟨⟩
  exact h

theorem follows_blank {ws rest : Str} (hws : Blank ws) (h : Follows rest) : Follows (ws ++ rest) := by
  cases ws with
  | nil => exact h
  | cons c ws => exact follows_cons (isNumberChar_of_isWs (List.all_eq_true.mp hws c (by simp))) _

theorem scanAtom_number {token rest : Str} {v : Json}
    (h : token.all isNumberChar = true ∧ numberOf fl token = some v) (hrest : Follows rest) :
    scanAtom fl (token ++ rest) = some (v, rest) := by
  rw [scanAtom, scanNumber_append h hrest]

theorem scanNumber_literal {l : Str × Json} (h : l ∈ literals) (rest : Str) :
    scanNumber fl (l.1 ++ rest) = none := by
  simp only [literals, List.mem_cons, List.not_mem_nil, or_false] at h
  rcases h with rfl | rfl | rfl | rfl | rfl | rfl <;> rfl

theorem scanLiteral_append {l : Str × Json} (h : l ∈ literals) (rest : Str) :
    scanLiteral (l.1 ++ rest) = some (l.2, rest) := by
  simp only [literals, List.mem_cons, List.not_mem_nil, or_false] at h
  rcases h with rfl | rfl | rfl | rfl | rfl | rfl <;> rfl

theorem scanAtom_literal {l : Str × Json} (h : l ∈ literals) (rest : Str) :
    scanAtom fl (l.1 ++ rest) = some (l.2, rest) := by
  rw [scanAtom, scanNumber_literal h, scanLiteral_append h]

/-! ### The round trip -/

section

variable (fl : FloatText)

mutual

/-- The keys of an object are distinct and the texts of its floats are read back. -/
def Sound : Json → Prop
  | .float (.fin q) => Reads fl q
  | .arr xs => SoundItems xs
  | .obj kvs => (kvs.map Prod.fst).Nodup ∧ SoundEntries kvs
  | _ => True

def SoundItems : List Json → Prop
  | [] => True
  | x :: xs => Sound x ∧ SoundItems xs

def SoundEntries : List (Str × Json) → Prop
  | [] => True
  | (_, x) :: kvs => Sound x ∧ SoundEntries kvs

end

end

theorem assign_of_not_mem {κ ν : Type*} [DecidableEq κ] {k : κ} {v : ν} {kvs : List (κ × ν)}
    (h : k ∉ kvs.map Prod.fst) : assign k v kvs = kvs ++ [(k, v)] := by
  induction kvs with
  | nil => rfl
  | cons kv kvs ih =>
    rw [List.map_cons, List.mem_cons, not_or] at h
    rw [assign, if_neg (Ne.symm h.1), ih h.2, List.cons_append]

theorem dictOf_of_nodup {kvs : List (Str × Json)} (h : (kvs.map Prod.fst).Nodup) :
    dictOf kvs = kvs := by
  suffices hgo : ∀ (d : List (Str × Json)), ((d ++ kvs).map Prod.fst).Nodup →
      kvs.foldl (fun d kv => assign kv.1 kv.2 d) d = d ++ kvs from hgo [] h
  clear h
  induction kvs with
  | nil => exact fun d _ => (List.append_nil d).symm
  | cons kv kvs ih =>
    intro d h
    have hnot : kv.1 ∉ d.map Prod.fst := by
      rw [List.map_append, List.map_cons] at h
      exact fun hmem => (List.disjoint_of_nodup_append h) hmem (List.mem_cons_self ..)
    rw [List.foldl_cons, assign_of_not_mem hnot, ih]
    · rw [List.append_assoc]
      rfl
    · rwa [List.append_assoc]

/-- A value begins with no whitespace and no closing bracket. -/
def Starts (text : Str) : Prop := ∃ c t, text = c :: t ∧ isWs c = false ∧ c ≠ ']' ∧ c ≠ '\x7d'

theorem Starts.append {text : Str} (h : Starts text) (rest : Str) : Starts (text ++ rest) := by
  obtain ⟨c, t, rfl, hc⟩ := h
  exact ⟨c, t ++ rest, rfl, hc⟩

theorem Starts.skipWs {text : Str} (h : Starts text) : skipWs text = text := by
  obtain ⟨c, t, rfl, hc, -⟩ := h
  exact skipWs_of_not hc t

theorem starts_number {token : Str} {v : Json}
    (h : token.all isNumberChar = true ∧ numberOf fl token = some v) : Starts token := by
  cases token with
  | nil => exact absurd h.2 nofun
  | cons c t =>
    have hc : isNumberChar c = true := List.all_eq_true.mp h.1 c (List.mem_cons_self ..)
    refine ⟨c, t, rfl, ?_, ?_, ?_⟩
    · rw [← Bool.not_eq_true]
      intro hws
      rw [isNumberChar_of_isWs hws] at hc
      cases hc
    · rintro rfl
      exact absurd hc (by decide)
    · rintro rfl
      exact absurd hc (by decide)

theorem starts_dumps {v : Json} (h : Sound fl v) (level : ℕ) : Starts (dumps fl lay level v) := by
  cases v with
  | null => exact ⟨_, _, rfl, by decide⟩
  | bool b => cases b <;> exact ⟨_, _, rfl, by decide⟩
  | int n => exact starts_number (numberOf_reprInt fl n)
  | float x =>
    cases x with
    | fin q => exact starts_number h
    | _ => exact ⟨_, _, rfl, by decide⟩
  | str s => exact ⟨_, _, rfl, by decide⟩
  | arr xs => cases xs <;> exact ⟨_, _, rfl, by decide⟩
  | obj kvs => cases kvs <;> exact ⟨_, _, rfl, by decide⟩

theorem scanOnce_items {ws text : Str} (hws : Blank ws) (h : Starts text) (fuel : ℕ) :
    scanOnce fl (fuel + 1) ('[' :: (ws ++ text)) =
      (scanItems fl fuel text).map fun r => (.arr r.1, r.2) := by
  rw [scanOnce, skipWs_blank hws, h.skipWs]
  obtain ⟨c, t, rfl, -, hc, -⟩ := h
  split
  · next heq => exact absurd (List.cons.inj heq).1 hc
  · rfl

theorem scanOnce_entries {ws text : Str} (hws : Blank ws) (h : Starts text) (fuel : ℕ) :
    scanOnce fl (fuel + 1) ('\x7b' :: (ws ++ text)) =
      (scanEntries fl fuel text).map fun r => (.obj (dictOf r.1), r.2) := by
  rw [scanOnce, skipWs_blank hws, h.skipWs]
  obtain ⟨c, t, rfl, -, -, hc⟩ := h
  split
  · next heq => exact absurd (List.cons.inj heq).1 hc
  · rfl

theorem scanOnce_atom {text : Str} {c : Char} (hc : text.head? = some c)
    (h : c ∉ (['"', '[', '\x7b'] : Str)) (fuel : ℕ) :
    scanOnce fl (fuel + 1) text = scanAtom fl text := by
  obtain ⟨t, rfl⟩ := List.head?_eq_some_iff.mp hc
  rw [scanOnce.eq_def]
  split
  · next heq => cases heq
  · next heq =>
      cases heq
      split
      · next heq => exact absurd (by rw [(List.cons.inj heq).1]; decide) h
      · next heq => exact absurd (by rw [(List.cons.inj heq).1]; decide) h
      · next heq => exact absurd (by rw [(List.cons.inj heq).1]; decide) h
      · rfl

theorem scanItems_step {fuel : ℕ} {text rest : Str} {x : Json}
    (h : scanOnce fl fuel text = some (x, rest)) {ws more : Str} (hws : Blank ws) :
    (rest = ws ++ ']' :: more → scanItems fl (fuel + 1) text = some ([x], more)) ∧
    (rest = ',' :: (ws ++ more) → Starts more → scanItems fl (fuel + 1) text =
      (scanItems fl fuel more).map fun r => (x :: r.1, r.2)) := by
  rw [scanItems, h]
  dsimp only
  constructor
  · rintro rfl
    rw [skipWs_blank hws, skipWs_of_not (by decide)]
    rfl
  · rintro rfl hmore
    rw [skipWs_of_not (by decide)]
    change (scanItems fl fuel (skipWs (ws ++ more))).map _ = _
    rw [skipWs_blank hws, hmore.skipWs]

theorem scanKey_quote {ws rest : Str} (hws : Blank ws) (hrest : Starts rest) (k : Str) :
    scanKey (quote k ++ ':' :: (ws ++ rest)) = some (k, rest) := by
  rw [quote, List.cons_append, List.append_assoc, List.singleton_append, scanKey,
    scanString_quote]
  dsimp only
  rw [skipWs_of_not (by decide)]
  change some (k, skipWs (ws ++ rest)) = _
  rw [skipWs_blank hws, hrest.skipWs]

theorem scanEntries_step {fuel : ℕ} {text value rest k : Str} {x : Json}
    (hkey : scanKey text = some (k, value)) (h : scanOnce fl fuel value = some (x, rest))
    {ws more : Str} (hws : Blank ws) :
    (rest = ws ++ '\x7d' :: more → scanEntries fl (fuel + 1) text = some ([(k, x)], more)) ∧
    (rest = ',' :: (ws ++ more) → Starts more → scanEntries fl (fuel + 1) text =
      (scanEntries fl fuel more).map fun r => ((k, x) :: r.1, r.2)) := by
  rw [scanEntries, hkey]
  dsimp only
  rw [h]
  dsimp only
  constructor
  · rintro rfl
    rw [skipWs_blank hws, skipWs_of_not (by decide)]
    rfl
  · rintro rfl hmore
    rw [skipWs_of_not (by decide)]
    change (scanEntries fl fuel (skipWs (ws ++ more))).map _ = _
    rw [skipWs_blank hws, hmore.skipWs]

theorem follows_dumpsItems (level : ℕ) (xs : List Json) (rest : Str) :
    Follows (dumpsItems fl lay level xs ++ rest) := by
  cases xs with
  | nil =>
    rw [dumpsItems, List.append_assoc]
    exact follows_blank (lay.blank_closing level) (follows_cons (by decide) _)
  | cons => exact follows_cons (by decide) _

theorem follows_dumpsEntries (level : ℕ) (kvs : List (Str × Json)) (rest : Str) :
    Follows (dumpsEntries fl lay level kvs ++ rest) := by
  cases kvs with
  | nil =>
    rw [dumpsEntries, List.append_assoc]
    exact follows_blank (lay.blank_closing level) (follows_cons (by decide) _)
  | cons => exact follows_cons (by decide) _

theorem scanOnce_of_atom {token rest : Str} {v : Json} {c : Char} (hhead : token.head? = some c)
    (hc : c ∉ (['"', '[', '\x7b'] : Str)) (h : scanAtom fl (token ++ rest) = some (v, rest))
    {fuel : ℕ} (hfuel : token.length ≤ fuel) : scanOnce fl fuel (token ++ rest) = some (v, rest) := by
  obtain ⟨t, rfl⟩ := List.head?_eq_some_iff.mp hhead
  obtain ⟨fuel, rfl⟩ := Nat.exists_eq_add_one.mpr (Nat.lt_of_lt_of_le (Nat.succ_pos _) hfuel)
  rw [← h]
  exact scanOnce_atom rfl hc fuel

theorem scanOnce_number {token rest : Str} {v : Json}
    (h : token.all isNumberChar = true ∧ numberOf fl token = some v) (hrest : Follows rest)
    {fuel : ℕ} (hfuel : token.length ≤ fuel) :
    scanOnce fl fuel (token ++ rest) = some (v, rest) := by
  obtain ⟨c, t, rfl, -⟩ := starts_number h
  have hc : isNumberChar c = true := List.all_eq_true.mp h.1 c (List.mem_cons_self ..)
  refine scanOnce_of_atom rfl ?_ (scanAtom_number h hrest) hfuel
  have hnot : (['"', '[', '\x7b'] : Str).all (fun d => !isNumberChar d) = true := by decide
  intro hmem
  have hc' : (!isNumberChar c) = true := List.all_eq_true.mp hnot c hmem
  rw [hc] at hc'
  cases hc'

theorem scanOnce_literal {l : Str × Json} (h : l ∈ literals) {rest : Str} {fuel : ℕ}
    (hfuel : l.1.length ≤ fuel) : scanOnce fl fuel (l.1 ++ rest) = some (l.2, rest) := by
  have hhead : ∃ c, l.1.head? = some c ∧ c ∉ (['"', '[', '\x7b'] : Str) := by
    simp only [literals, List.mem_cons, List.not_mem_nil, or_false] at h
    rcases h with rfl | rfl | rfl | rfl | rfl | rfl <;> exact ⟨_, rfl, by decide⟩
  obtain ⟨c, hc, hnot⟩ := hhead
  exact scanOnce_of_atom hc hnot (scanAtom_literal h rest) hfuel

/-- The text of a list without its brackets. -/
def fromItems (fl : FloatText) (lay : Layout) (level : ℕ) : List Json → Str
  | [] => []
  | x :: xs => dumps fl lay (level + 1) x ++ dumpsItems fl lay level xs

def fromEntries (fl : FloatText) (lay : Layout) (level : ℕ) : List (Str × Json) → Str
  | [] => []
  | (k, x) :: kvs => quote k ++ ':' :: (lay.colon ++
    (dumps fl lay (level + 1) x ++ dumpsEntries fl lay level kvs))

theorem starts_fromItems {xs : List Json} (hne : xs ≠ []) (h : SoundItems fl xs) (level : ℕ)
    (rest : Str) : Starts (fromItems fl lay level xs ++ rest) := by
  cases xs with
  | nil => exact absurd rfl hne
  | cons x xs =>
    rw [fromItems, List.append_assoc]
    exact (starts_dumps h.1 (level + 1)).append _

theorem starts_fromEntries {kvs : List (Str × Json)} (hne : kvs ≠ []) (level : ℕ) (rest : Str) :
    Starts (fromEntries fl lay level kvs ++ rest) := by
  cases kvs with
  | nil => exact absurd rfl hne
  | cons kv kvs => exact ⟨_, _, rfl, by decide⟩

theorem length_dumpsItems_pos (level : ℕ) (xs : List Json) :
    0 < (dumpsItems fl lay level xs).length := by
  cases xs with
  | nil => simp [dumpsItems]
  | cons => exact Nat.succ_pos _

theorem length_dumpsEntries_pos (level : ℕ) (kvs : List (Str × Json)) :
    0 < (dumpsEntries fl lay level kvs).length := by
  cases kvs with
  | nil => simp [dumpsEntries]
  | cons => exact Nat.succ_pos _

mutual

/-- A value is read back whatever follows; its text bounds the fuel. -/
theorem scanOnce_dumps : ∀ (v : Json) (level fuel : ℕ) (rest : Str), Sound fl v → Follows rest →
    (dumps fl lay level v).length ≤ fuel →
    scanOnce fl fuel (dumps fl lay level v ++ rest) = some (v, rest)
  | .null, _, _, _, _, _, hfuel =>
    scanOnce_literal (l := ("null".toList, .null)) (by simp [literals]) hfuel
  | .bool true, _, _, _, _, _, hfuel =>
    scanOnce_literal (l := ("true".toList, .bool true)) (by simp [literals]) hfuel
  | .bool false, _, _, _, _, _, hfuel =>
    scanOnce_literal (l := ("false".toList, .bool false)) (by simp [literals]) hfuel
  | .int n, _, _, _, _, hrest, hfuel => scanOnce_number (numberOf_reprInt fl n) hrest hfuel
  | .float (.fin _), _, _, _, hs, hrest, hfuel => scanOnce_number hs hrest hfuel
  | .float .inf, _, _, _, _, _, hfuel =>
    scanOnce_literal (l := ("Infinity".toList, .float .inf)) (by simp [literals]) hfuel
  | .float .negInf, _, _, _, _, _, hfuel =>
    scanOnce_literal (l := ("-Infinity".toList, .float .negInf)) (by simp [literals]) hfuel
  | .float .nan, _, _, _, _, _, hfuel =>
    scanOnce_literal (l := ("NaN".toList, .float .nan)) (by simp [literals]) hfuel
  | .str s, _, fuel + 1, rest, _, _, _ => by
    rw [dumps, quote, List.cons_append, List.append_assoc, List.singleton_append, scanOnce,
      scanString_quote]
    rfl
  | .arr [], _, _ + 1, _, _, _, _ => rfl
  | .obj [], _, _ + 1, _, _, _, _ => rfl
  | .arr (x :: xs), level, fuel + 1, rest, hs, _, hfuel => by
    have hne : x :: xs ≠ [] := List.cons_ne_nil _ _
    have hlength : (fromItems fl lay level (x :: xs)).length ≤ fuel := by
      rw [dumps, List.length_cons, List.length_append] at hfuel
      rw [fromItems]
      omega
    have hitems := scanItems_dumps (x :: xs) level fuel rest hne hs hlength
    rw [dumps, List.cons_append, List.append_assoc]
    refine (scanOnce_items (lay.blank_opening level) (starts_fromItems hne hs level rest) fuel).trans
      ?_
    rw [hitems]
    rfl
  | .obj ((k, x) :: kvs), level, fuel + 1, rest, hs, _, hfuel => by
    have hne : (k, x) :: kvs ≠ [] := List.cons_ne_nil _ _
    have hlength : (fromEntries fl lay level ((k, x) :: kvs)).length ≤ fuel := by
      rw [dumps, List.length_cons, List.length_append] at hfuel
      rw [fromEntries]
      omega
    have hentries := scanEntries_dumps ((k, x) :: kvs) level fuel rest hne hs.2 hlength
    rw [dumps, List.cons_append, List.append_assoc]
    refine (scanOnce_entries (lay.blank_opening level) (starts_fromEntries hne level rest)
      fuel).trans ?_
    rw [hentries, Option.map_some, dictOf_of_nodup hs.1]

theorem scanItems_dumps : ∀ (xs : List Json) (level fuel : ℕ) (rest : Str), xs ≠ [] →
    SoundItems fl xs → (fromItems fl lay level xs).length ≤ fuel →
    scanItems fl fuel (fromItems fl lay level xs ++ rest) = some (xs, rest)
  | x :: xs, level, 0, _, _, _, hfuel => by
    have hpos := @length_dumpsItems_pos fl lay level xs
    rw [fromItems, List.length_append] at hfuel
    omega
  | [x], level, fuel + 1, rest, _, hs, hfuel => by
    have hx := scanOnce_dumps x (level + 1) fuel (dumpsItems fl lay level [] ++ rest) hs.1
      (follows_dumpsItems level [] rest) (by
        have hpos := @length_dumpsItems_pos fl lay level []
        rw [fromItems, List.length_append] at hfuel
        omega)
    rw [fromItems, List.append_assoc]
    refine (scanItems_step hx (lay.blank_closing level)).1 ?_
    rw [dumpsItems, List.append_assoc, List.singleton_append]
  | x :: y :: xs, level, fuel + 1, rest, _, hs, hfuel => by
    have hne : y :: xs ≠ [] := List.cons_ne_nil _ _
    rw [fromItems, dumpsItems, List.length_append, List.length_cons, List.length_append] at hfuel
    have hx := scanOnce_dumps x (level + 1) fuel (dumpsItems fl lay level (y :: xs) ++ rest) hs.1
      (follows_dumpsItems level (y :: xs) rest) (by omega)
    have hxs := scanItems_dumps (y :: xs) level fuel rest hne hs.2 (by rw [fromItems]; omega)
    rw [fromItems, List.append_assoc]
    have hstarts : Starts (fromItems fl lay level (y :: xs) ++ rest) :=
      starts_fromItems hne hs.2 level rest
    refine ((scanItems_step hx (lay.blank_gap level)).2 ?_ hstarts).trans ?_
    · rw [dumpsItems, fromItems, List.cons_append, List.append_assoc]
    · rw [hxs]
      rfl

theorem scanEntries_dumps : ∀ (kvs : List (Str × Json)) (level fuel : ℕ) (rest : Str), kvs ≠ [] →
    SoundEntries fl kvs → (fromEntries fl lay level kvs).length ≤ fuel →
    scanEntries fl fuel (fromEntries fl lay level kvs ++ rest) = some (kvs, rest)
  | (k, x) :: kvs, level, 0, _, _, _, hfuel => by
    have hpos := @length_dumpsEntries_pos fl lay level kvs
    rw [fromEntries, List.length_append] at hfuel
    simp only [List.length_cons, List.length_append] at hfuel
    omega
  | [(k, x)], level, fuel + 1, rest, _, hs, hfuel => by
    have hx := scanOnce_dumps x (level + 1) fuel (dumpsEntries fl lay level [] ++ rest) hs.1
      (follows_dumpsEntries level [] rest) (by
        have hpos := @length_dumpsEntries_pos fl lay level []
        rw [fromEntries, List.length_append, List.length_cons, List.length_append,
          List.length_append] at hfuel
        omega)
    have hstarts : Starts (dumps fl lay (level + 1) x) := starts_dumps hs.1 (level + 1)
    have hkey := scanKey_quote lay.blank_colon
      (hstarts.append (dumpsEntries fl lay level [] ++ rest)) k
    have htext : fromEntries fl lay level [(k, x)] ++ rest = quote k ++ ':' :: (lay.colon ++
        (dumps fl lay (level + 1) x ++ (dumpsEntries fl lay level [] ++ rest))) := by
      rw [fromEntries]
      simp only [List.append_assoc, List.cons_append]
    rw [htext]
    refine (scanEntries_step hkey hx (lay.blank_closing level)).1 ?_
    rw [dumpsEntries, List.append_assoc, List.singleton_append]
  | (k, x) :: (k', y) :: kvs, level, fuel + 1, rest, _, hs, hfuel => by
    have hne : (k', y) :: kvs ≠ [] := List.cons_ne_nil _ _
    rw [fromEntries, dumpsEntries, List.length_append, List.length_cons, List.length_append,
      List.length_append, List.length_cons, List.length_append] at hfuel
    have hx := scanOnce_dumps x (level + 1) fuel (dumpsEntries fl lay level ((k', y) :: kvs) ++ rest)
      hs.1 (follows_dumpsEntries level ((k', y) :: kvs) rest) (by omega)
    have hxs := scanEntries_dumps ((k', y) :: kvs) level fuel rest hne hs.2
      (by rw [fromEntries]; omega)
    have hstarts : Starts (dumps fl lay (level + 1) x) := starts_dumps hs.1 (level + 1)
    have hkey := scanKey_quote lay.blank_colon
      (hstarts.append (dumpsEntries fl lay level ((k', y) :: kvs) ++ rest)) k
    have htext : fromEntries fl lay level ((k, x) :: (k', y) :: kvs) ++ rest =
        quote k ++ ':' :: (lay.colon ++ (dumps fl lay (level + 1) x ++
          (dumpsEntries fl lay level ((k', y) :: kvs) ++ rest))) := by
      rw [fromEntries]
      simp only [List.append_assoc, List.cons_append]
    rw [htext]
    have hstarts' : Starts (fromEntries fl lay level ((k', y) :: kvs) ++ rest) :=
      starts_fromEntries hne level rest
    refine ((scanEntries_step hkey hx (lay.blank_gap level)).2 ?_ hstarts').trans ?_
    · rw [dumpsEntries, fromEntries, List.cons_append, List.append_assoc]
    · rw [hxs]
      rfl

end

/-- What `json.dumps` wrote is read back as it was. -/
theorem loads_dumps {v : Json} (h : Sound fl v) : loads fl (dumps fl lay 0 v) = .value v := by
  have hscan : scanOnce fl (dumps fl lay 0 v).length (dumps fl lay 0 v ++ []) = some (v, []) :=
    scanOnce_dumps v 0 _ [] h nofun le_rfl
  rw [List.append_nil] at hscan
  rw [loads, (starts_dumps h 0).skipWs, hscan]
  rfl

/-! ### A longer text -/

theorem skipWs_append {text : Str} (h : skipWs text ≠ []) (u : Str) :
    skipWs (text ++ u) = skipWs text ++ u := by
  rw [skipWs] at h
  rw [skipWs, skipWs, List.dropWhile_append, if_neg (by rwa [List.isEmpty_iff])]

theorem splitQuote_append {text body rest : Str} (h : splitQuote text = some (body, rest)) (u : Str) :
    splitQuote (text ++ u) = some (body, rest ++ u) := by
  fun_induction splitQuote text generalizing body with
  | case1 => cases h
  | case2 => cases h
  | case3 =>
    cases h
    rfl
  | case4 c t ih =>
    obtain ⟨⟨b, r⟩, hr, heq⟩ := Option.map_eq_some_iff.mp h
    cases heq
    rw [List.cons_append, List.cons_append, splitQuote, ih hr]
    rfl
  | case5 c t hend hq hmore ih =>
    obtain ⟨⟨b, r⟩, hr, heq⟩ := Option.map_eq_some_iff.mp h
    cases heq
    have hb : c ≠ '\\' := by
      intro hc
      cases t with
      | nil => exact hend hc rfl
      | cons d t => exact hmore d t hc rfl
    rw [List.cons_append, splitQuote_plain hq hb, ih hr]
    rfl

theorem scanString_append {text s rest : Str} (h : scanString text = some (s, rest)) (u : Str) :
    scanString (text ++ u) = some (s, rest ++ u) := by
  rw [scanString] at h
  split at h
  · next body r hsplit =>
      obtain ⟨s', hs, heq⟩ := Option.map_eq_some_iff.mp h
      cases heq
      rw [scanString, splitQuote_append hsplit]
      dsimp only
      rw [hs]
      rfl
  · cases h

theorem scanNumber_rest {text rest : Str} {v : Json} (h : scanNumber fl text = some (v, rest))
    (hrest : rest ≠ []) (u : Str) : scanNumber fl (text ++ u) = some (v, rest ++ u) := by
  obtain ⟨v', hv, heq⟩ := Option.map_eq_some_iff.mp h
  cases heq
  rw [List.span_eq_takeWhile_dropWhile] at hrest hv
  rw [scanNumber, List.span_eq_takeWhile_dropWhile, List.span_eq_takeWhile_dropWhile,
    List.dropWhile_append, if_neg (by rwa [List.isEmpty_iff])]
  have htake : (text ++ u).takeWhile isNumberChar = text.takeWhile isNumberChar := by
    have hlength := congrArg List.length (List.takeWhile_append_dropWhile (p := isNumberChar) (l := text))
    have hpos : 0 < (text.dropWhile isNumberChar).length := List.length_pos_iff.mpr hrest
    rw [List.length_append] at hlength
    rw [List.takeWhile_append, if_neg (by omega)]
  rw [htake]
  dsimp only at hv ⊢
  rw [hv]
  rfl

theorem scanLiteral_rest {text rest : Str} {v : Json} (h : scanLiteral text = some (v, rest)) :
    ∃ l ∈ literals, text = l.1 ++ rest ∧ v = l.2 := by
  obtain ⟨l, hl, heq⟩ := Option.map_eq_some_iff.mp h
  have hprefix : l.1 <+: text := List.isPrefixOf_iff_prefix.mp (by simpa using List.find?_some hl)
  obtain ⟨t, rfl⟩ := hprefix
  rw [List.drop_left] at heq
  cases heq
  exact ⟨l, List.mem_of_find?_eq_some hl, rfl, rfl⟩

theorem scanAtom_append {text rest : Str} {v : Json} (h : scanAtom fl text = some (v, rest))
    (hrest : rest ≠ []) (u : Str) : scanAtom fl (text ++ u) = some (v, rest ++ u) := by
  rw [scanAtom] at h
  split at h
  · next r hnumber =>
      cases h
      rw [scanAtom, scanNumber_rest hnumber hrest]
  · obtain ⟨l, hl, rfl, rfl⟩ := scanLiteral_rest h
    rw [List.append_assoc]
    exact scanAtom_literal hl (rest ++ u)

theorem scanItems_nil (fuel : ℕ) : scanItems fl fuel [] = none := by
  cases fuel with
  | zero => rfl
  | succ fuel => cases fuel <;> rfl

theorem scanOnce_nil (fuel : ℕ) : scanOnce fl fuel [] = none := by
  cases fuel <;> rfl

theorem scanEntries_nil (fuel : ℕ) : scanEntries fl fuel [] = none := by
  cases fuel <;> rfl

theorem scanKey_append {text rest k : Str} (h : scanKey text = some (k, rest)) (hrest : rest ≠ [])
    (u : Str) : scanKey (text ++ u) = some (k, rest ++ u) := by
  rw [scanKey.eq_def] at h
  split at h
  · next t =>
      split at h
      · cases h
      · next k' r hs =>
          split at h
          · next r' hr =>
              cases h
              rw [List.cons_append, scanKey, scanString_append hs]
              dsimp only
              rw [skipWs_append (by rw [hr]; exact List.cons_ne_nil _ _), hr]
              change some (k, skipWs (r' ++ u)) = _
              rw [skipWs_append hrest]
          · cases h
  · cases h

/-- A value that is delimited by what follows, or by its own brackets, is read from a longer
text as well. -/
def Extends (fl : FloatText) (fuel : ℕ) : Prop := ∀ {text rest : Str} {v : Json},
  scanOnce fl fuel text = some (v, rest) → (rest ≠ [] ∨ text.head? = some '\x7b') →
  ∀ {more : ℕ}, fuel ≤ more → ∀ u, scanOnce fl more (text ++ u) = some (v, rest ++ u)

theorem scanItems_append {fuel : ℕ} (hvalue : ∀ n < fuel, Extends fl n) {text rest : Str}
    {xs : List Json} (h : scanItems fl fuel text = some (xs, rest)) {more : ℕ} (hmore : fuel ≤ more)
    (u : Str) : scanItems fl more (text ++ u) = some (xs, rest ++ u) := by
  induction fuel generalizing text xs more with
  | zero => cases h
  | succ fuel ih =>
    obtain ⟨more, rfl⟩ := Nat.exists_eq_add_one.mpr (Nat.lt_of_lt_of_le (Nat.succ_pos fuel) hmore)
    have hle : fuel ≤ more := Nat.le_of_succ_le_succ hmore
    rw [scanItems] at h
    split at h
    · cases h
    · next x r hx =>
        have hr : skipWs r ≠ [] → scanOnce fl more (text ++ u) = some (x, r ++ u) := by
          intro hne
          refine hvalue fuel (Nat.lt_succ_self fuel) hx (Or.inl ?_) hle u
          rintro rfl
          exact hne rfl
        split at h
        · next r' hclose =>
            cases h
            rw [scanItems, hr (by rw [hclose]; exact List.cons_ne_nil _ _)]
            dsimp only
            rw [skipWs_append (by rw [hclose]; exact List.cons_ne_nil _ _), hclose]
            rfl
        · next r' hcomma =>
            obtain ⟨⟨ys, r''⟩, hys, heq⟩ := Option.map_eq_some_iff.mp h
            cases heq
            have hne : skipWs r' ≠ [] := by
              intro hnil
              rw [hnil, scanItems_nil] at hys
              cases hys
            rw [scanItems, hr (by rw [hcomma]; exact List.cons_ne_nil _ _)]
            dsimp only
            rw [skipWs_append (by rw [hcomma]; exact List.cons_ne_nil _ _), hcomma]
            change (scanItems fl more (skipWs (r' ++ u))).map _ = _
            rw [skipWs_append hne, ih (fun n hn => hvalue n (Nat.lt_succ_of_lt hn)) hys hle]
            rfl
        · cases h

theorem scanEntries_append {fuel : ℕ} (hvalue : ∀ n < fuel, Extends fl n) {text rest : Str}
    {kvs : List (Str × Json)} (h : scanEntries fl fuel text = some (kvs, rest)) {more : ℕ}
    (hmore : fuel ≤ more) (u : Str) :
    scanEntries fl more (text ++ u) = some (kvs, rest ++ u) := by
  induction fuel generalizing text kvs more with
  | zero => cases h
  | succ fuel ih =>
    obtain ⟨more, rfl⟩ := Nat.exists_eq_add_one.mpr (Nat.lt_of_lt_of_le (Nat.succ_pos fuel) hmore)
    have hle : fuel ≤ more := Nat.le_of_succ_le_succ hmore
    rw [scanEntries] at h
    split at h
    · cases h
    · next k value hkey =>
        split at h
        · cases h
        · next x r hx =>
            have hvalue' : value ≠ [] := by
              rintro rfl
              rw [scanOnce_nil] at hx
              cases hx
            have hr : skipWs r ≠ [] → scanOnce fl more (value ++ u) = some (x, r ++ u) := by
              intro hne
              refine hvalue fuel (Nat.lt_succ_self fuel) hx (Or.inl ?_) hle u
              rintro rfl
              exact hne rfl
            split at h
            · next r' hclose =>
                cases h
                rw [scanEntries, scanKey_append hkey hvalue']
                dsimp only
                rw [hr (by rw [hclose]; exact List.cons_ne_nil _ _)]
                dsimp only
                rw [skipWs_append (by rw [hclose]; exact List.cons_ne_nil _ _), hclose]
                rfl
            · next r' hcomma =>
                obtain ⟨⟨ys, r''⟩, hys, heq⟩ := Option.map_eq_some_iff.mp h
                cases heq
                have hne : skipWs r' ≠ [] := by
                  intro hnil
                  rw [hnil, scanEntries_nil] at hys
                  cases hys
                rw [scanEntries, scanKey_append hkey hvalue']
                dsimp only
                rw [hr (by rw [hcomma]; exact List.cons_ne_nil _ _)]
                dsimp only
                rw [skipWs_append (by rw [hcomma]; exact List.cons_ne_nil _ _), hcomma]
                change (scanEntries fl more (skipWs (r' ++ u))).map _ = _
                rw [skipWs_append hne, ih (fun n hn => hvalue n (Nat.lt_succ_of_lt hn)) hys hle]
                rfl
            · cases h

theorem scanOnce_append (fuel : ℕ) : Extends fl fuel := by
  induction fuel using Nat.strongRecOn with
  | ind fuel ih =>
    intro text rest v h hrest more hmore u
    cases fuel with
    | zero => cases h
    | succ fuel =>
      obtain ⟨more, rfl⟩ := Nat.exists_eq_add_one.mpr (Nat.lt_of_lt_of_le (Nat.succ_pos fuel) hmore)
      have hle : fuel ≤ more := Nat.le_of_succ_le_succ hmore
      have hvalue : ∀ n < fuel, Extends fl n := fun n hn => ih n (Nat.lt_succ_of_lt hn)
      have hitems : ∀ {t r xs}, scanItems fl fuel t = some (xs, r) → t ≠ [] := by
        rintro _ _ _ hxs rfl
        rw [scanItems_nil] at hxs
        cases hxs
      have hentries : ∀ {t r kvs}, scanEntries fl fuel t = some (kvs, r) → t ≠ [] := by
        rintro _ _ _ hkvs rfl
        rw [scanEntries_nil] at hkvs
        cases hkvs
      cases text with
      | nil =>
        rw [scanOnce_nil] at h
        cases h
      | cons c t =>
        by_cases hquote : c = '"'
        · subst hquote
          obtain ⟨⟨s, r⟩, hs, heq⟩ := Option.map_eq_some_iff.mp h
          cases heq
          rw [List.cons_append, scanOnce, scanString_append hs]
          rfl
        by_cases hbracket : c = '['
        · subst hbracket
          rw [scanOnce] at h
          split at h
          · next r hclose =>
              cases h
              rw [List.cons_append, scanOnce,
                skipWs_append (by rw [hclose]; exact List.cons_ne_nil _ _), hclose]
              rfl
          · next hopen =>
              obtain ⟨⟨xs, r⟩, hxs, heq⟩ := Option.map_eq_some_iff.mp h
              cases heq
              rw [List.cons_append, scanOnce, skipWs_append (hitems hxs)]
              split
              · next r' hclose =>
                  obtain ⟨d, t', ht⟩ := List.exists_cons_of_ne_nil (hitems hxs)
                  rw [ht, List.cons_append] at hclose
                  exact absurd (by rw [ht, (List.cons.inj hclose).1]) (hopen t')
              · rw [scanItems_append hvalue hxs hle]
                rfl
        by_cases hbrace : c = '\x7b'
        · subst hbrace
          rw [scanOnce] at h
          split at h
          · next r hclose =>
              cases h
              rw [List.cons_append, scanOnce,
                skipWs_append (by rw [hclose]; exact List.cons_ne_nil _ _), hclose]
              rfl
          · next hopen =>
              obtain ⟨⟨kvs, r⟩, hkvs, heq⟩ := Option.map_eq_some_iff.mp h
              cases heq
              rw [List.cons_append, scanOnce, skipWs_append (hentries hkvs)]
              split
              · next r' hclose =>
                  obtain ⟨d, t', ht⟩ := List.exists_cons_of_ne_nil (hentries hkvs)
                  rw [ht, List.cons_append] at hclose
                  exact absurd (by rw [ht, (List.cons.inj hclose).1]) (hopen t')
              · rw [scanEntries_append hvalue hkvs hle]
                rfl
        have hatom : c ∉ (['"', '[', '\x7b'] : Str) := by simp [hquote, hbracket, hbrace]
        rw [scanOnce_atom rfl hatom] at h
        rw [scanOnce_atom rfl hatom]
        refine scanAtom_append h (hrest.resolve_right fun hhead => ?_) u
        exact hbrace (Option.some.inj hhead)

/-- An object that has been cut off is no document. -/
theorem loads_take_dumps {kvs : List (Str × Json)} (h : Sound fl (.obj kvs)) {n : ℕ}
    (hn : n < (dumps fl lay 0 (.obj kvs)).length) :
    loads fl ((dumps fl lay 0 (.obj kvs)).take n) = .notJson := by
  have hscan : ∀ text, text = dumps fl lay 0 (.obj kvs) →
      scanOnce fl text.length (text ++ []) = some (.obj kvs, []) := by
    rintro _ rfl
    exact scanOnce_dumps _ 0 _ [] h nofun le_rfl
  have hhead : ∃ t, dumps fl lay 0 (.obj kvs) = '\x7b' :: t := by
    cases kvs with
    | nil => exact ⟨_, rfl⟩
    | cons => exact ⟨_, rfl⟩
  generalize dumps fl lay 0 (.obj kvs) = text at hn hscan hhead
  obtain ⟨t, rfl⟩ := hhead
  have hfull := hscan _ rfl
  rw [List.append_nil] at hfull
  cases n with
  | zero => rfl
  | succ n =>
    rw [List.take_succ_cons, loads, skipWs_of_not (by decide)]
    split
    · rfl
    · next v rest hcut =>
        have hlonger := scanOnce_append _ hcut (Or.inr rfl)
          (show ('\x7b' :: t.take n).length ≤ ('\x7b' :: t).length by simp) (t.drop n)
        rw [List.cons_append, List.take_append_drop, hfull] at hlonger
        have hnil : rest ++ t.drop n = [] := (Prod.mk.inj (Option.some.inj hlonger)).2.symm
        have hdrop := congrArg List.length (List.append_eq_nil_iff.mp hnil).2
        rw [List.length_drop, List.length_nil] at hdrop
        rw [List.length_cons] at hn
        omega

/-! ### The bytes -/

def Ascii (s : Str) : Prop := s.all FormUrl.isAscii = true

theorem Ascii.append {s t : Str} (hs : Ascii s) (ht : Ascii t) : Ascii (s ++ t) := by
  rw [Ascii, List.all_append, hs, ht]
  rfl

theorem Ascii.cons {c : Char} {s : Str} (hc : FormUrl.isAscii c = true) (hs : Ascii s) :
    Ascii (c :: s) := by
  rw [Ascii, List.all_cons, hc, hs]
  rfl

theorem ascii_of_all {p : Char → Bool} (hp : ∀ c, p c = true → FormUrl.isAscii c = true) {s : Str}
    (h : s.all p = true) : Ascii s :=
  List.all_eq_true.mpr fun c hc => hp c (List.all_eq_true.mp h c hc)

theorem ascii_flatMap {α : Type} {f : α → Str} (h : ∀ x, Ascii (f x)) (xs : List α) : Ascii (xs.flatMap f) := by
  induction xs with
  | nil => rfl
  | cons x xs ih => exact (h x).append ih

theorem ascii_blank {s : Str} (h : Blank s) : Ascii s := by
  refine ascii_of_all (fun c hc => ?_) h
  rw [isWs, decide_eq_true_iff] at hc
  have hall : ([' ', '\t', '\n', '\r'] : Str).all FormUrl.isAscii = true := by decide
  exact List.all_eq_true.mp hall c hc

theorem ascii_number {s : Str} (h : s.all isNumberChar = true) : Ascii s := by
  refine ascii_of_all (fun c hc => ?_) h
  rw [isNumberChar, Bool.or_eq_true] at hc
  rcases hc with hdigit | hsign
  · have h9 : c.val ≤ '9'.val := by
      rw [Char.isDigit, Bool.and_eq_true] at hdigit
      exact of_decide_eq_true hdigit.2
    exact decide_eq_true (Nat.lt_of_le_of_lt (UInt32.le_iff_toNat_le.mp h9) (by decide))
  · have hall : (['-', '+', '.', 'e', 'E'] : Str).all FormUrl.isAscii = true := by decide
    exact List.all_eq_true.mp hall c (of_decide_eq_true hsign)

theorem ascii_hex4 (n : ℕ) : Ascii (hex4 n) := by
  have hall : ∀ n : Fin 16, FormUrl.isAscii (Nat.digitChar n.val) = true := by decide
  have hdigit : ∀ m, FormUrl.isAscii (Nat.digitChar (m % 16)) = true :=
    fun m => hall ⟨m % 16, Nat.mod_lt _ (by decide)⟩
  simp only [Ascii, hex4, List.all_cons, hdigit, List.all_nil, Bool.and_self]

theorem ascii_escape (c : Char) : Ascii (escape c) := by
  cases hletter : letters.find? (·.2 = c) with
  | some letter =>
    have hall : ∀ l ∈ letters, Ascii ['\\', l.1] := by
      unfold Ascii
      decide
    rw [escape, hletter]
    exact hall letter (List.mem_of_find?_eq_some hletter)
  | none =>
    rw [escape, hletter]
    dsimp only
    split_ifs with hplain
    · exact Ascii.cons (decide_eq_true (by omega)) rfl
    · exact ascii_flatMap (fun n => ((ascii_hex4 n).cons (by decide)).cons (by decide)) _

theorem ascii_quote (s : Str) : Ascii (quote s) :=
  Ascii.cons (by decide) ((ascii_flatMap ascii_escape s).append rfl)

mutual

theorem ascii_dumps : ∀ (v : Json) (level : ℕ), Sound fl v → Ascii (dumps fl lay level v)
  | .null, _, _ | .bool true, _, _ | .bool false, _, _ | .float .inf, _, _
  | .float .negInf, _, _ | .float .nan, _, _ | .arr [], _, _ | .obj [], _, _ => rfl
  | .int n, _, _ => ascii_number (numberOf_reprInt fl n).1
  | .float (.fin _), _, hs => ascii_number hs.1
  | .str s, _, _ => ascii_quote s
  | .arr (x :: xs), level, hs => Ascii.cons (by decide) ((ascii_blank (lay.blank_opening level)).append
    ((ascii_dumps x (level + 1) hs.1).append (ascii_dumpsItems xs level hs.2)))
  | .obj ((k, x) :: kvs), level, hs =>
    Ascii.cons (by decide) ((ascii_blank (lay.blank_opening level)).append ((ascii_quote k).append
      (Ascii.cons (by decide) ((ascii_blank lay.blank_colon).append
        ((ascii_dumps x (level + 1) hs.2.1).append (ascii_dumpsEntries kvs level hs.2.2))))))

theorem ascii_dumpsItems : ∀ (xs : List Json) (level : ℕ), SoundItems fl xs →
    Ascii (dumpsItems fl lay level xs)
  | [], level, _ => (ascii_blank (lay.blank_closing level)).append rfl
  | x :: xs, level, hs => Ascii.cons (by decide) ((ascii_blank (lay.blank_gap level)).append
    ((ascii_dumps x (level + 1) hs.1).append (ascii_dumpsItems xs level hs.2)))

theorem ascii_dumpsEntries : ∀ (kvs : List (Str × Json)) (level : ℕ), SoundEntries fl kvs →
    Ascii (dumpsEntries fl lay level kvs)
  | [], level, _ => (ascii_blank (lay.blank_closing level)).append rfl
  | (k, x) :: kvs, level, hs =>
    Ascii.cons (by decide) ((ascii_blank (lay.blank_gap level)).append ((ascii_quote k).append
      (Ascii.cons (by decide) ((ascii_blank lay.blank_colon).append
        ((ascii_dumps x (level + 1) hs.1).append (ascii_dumpsEntries kvs level hs.2))))))

end

theorem encodeUtf8_cons {c : Char} (h : FormUrl.isAscii c = true) :
    ∃ b, ∀ s : Str, PyStr.encodeUtf8 (c :: s) = b :: PyStr.encodeUtf8 s := by
  have hsmall : c.val.toNat < 0x80 := of_decide_eq_true h
  have hone : ∃ b, String.utf8EncodeChar c = [b] := by
    rw [String.utf8EncodeChar]
    exact ⟨_, if_pos (by omega)⟩
  obtain ⟨b, hb⟩ := hone
  refine ⟨b, fun s => ?_⟩
  rw [PyStr.encodeUtf8, List.flatMap_cons, hb]
  rfl

theorem take_encodeUtf8 {s : Str} (h : Ascii s) (n : ℕ) :
    (PyStr.encodeUtf8 s).take n = PyStr.encodeUtf8 (s.take n) := by
  induction s generalizing n with
  | nil =>
    rw [List.take_nil]
    exact List.take_nil
  | cons c s ih =>
    rw [Ascii, List.all_cons, Bool.and_eq_true] at h
    obtain ⟨b, hb⟩ := encodeUtf8_cons h.1
    cases n with
    | zero => rfl
    | succ n => rw [hb, List.take_succ_cons, List.take_succ_cons, hb, ih h.2]

/-- The bytes of an object up to some point: the object, or no document. -/
theorem loads_take_encodeUtf8 {kvs : List (Str × Json)} (h : Sound fl (.obj kvs)) (n : ℕ) :
    ∃ text, PyStr.decodeUtf8 ((PyStr.encodeUtf8 (dumps fl lay 0 (.obj kvs))).take n) = some text ∧
      loads fl text = if n < (dumps fl lay 0 (.obj kvs)).length then .notJson
        else .value (.obj kvs) := by
  refine ⟨(dumps fl lay 0 (.obj kvs)).take n, ?_, ?_⟩
  · rw [take_encodeUtf8 (ascii_dumps _ 0 h), PyStr.decodeUtf8_encodeUtf8]
  · split_ifs with hn
    · exact loads_take_dumps h hn
    · rw [List.take_of_length_le (Nat.not_lt.mp hn), loads_dumps h]

end Lib.JsonText
