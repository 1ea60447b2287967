import HadcdAgent.Lib.PyStr

/-!
# Text in HTML

`html.escape`, and the text that a reader of the page sees in its place.
-/

namespace Lib.Html

/-! ### Writing -/

def replace (c : Char) (by_ : Str) (t : Str) : Str :=
  t.flatMap fun d => if d = c then by_ else [d]

/-- `html.escape(text)`, with `quote` set. -/
def escape (t : Str) : Str :=
  replace '\'' "&#x27;" (replace '"' "&quot;" (replace '>' "&gt;" (replace '<' "&lt;"
    (replace '&' "&amp;" t))))

/-! ### Reading -/

/-- The references that `escape` writes. -/
def references : List (Str × Char) :=
  [("&amp;", '&'), ("&lt;", '<'), ("&gt;", '>'), ("&quot;", '"'), ("&#x27;", '\'')]

/-- `skip` characters belong to a reference that has been read. -/
def unescapeFrom : ℕ → Str → Str
  | _, [] => []
  | skip + 1, _ :: t => unescapeFrom skip t
  | 0, c :: t =>
    match references.find? fun r => r.1.isPrefixOf (c :: t) with
    | some r => r.2 :: unescapeFrom (r.1.length - 1) t
    | none => c :: unescapeFrom 0 t

def unescape (t : Str) : Str := unescapeFrom 0 t

/-! ### Both ways -/

def escapeChar (c : Char) : Str :=
  if c = '&' then "&amp;" else if c = '<' then "&lt;" else if c = '>' then "&gt;"
  else if c = '"' then "&quot;" else if c = '\'' then "&#x27;" else [c]

theorem replace_flatMap (c : Char) (by_ : Str) (f : Char → Str) (t : Str) :
    replace c by_ (t.flatMap f) = t.flatMap fun d => replace c by_ (f d) := by
  rw [replace, List.flatMap_assoc]
  rfl

theorem replace_singleton {c d : Char} (h : d ≠ c) (by_ : Str) : replace c by_ [d] = [d] := by
  rw [replace, List.flatMap_singleton, if_neg h]

/-- The replacements one after the other are one pass over the text. -/
theorem escape_eq_flatMap (t : Str) : escape t = t.flatMap escapeChar := by
  have hfirst : replace '&' "&amp;" t = t.flatMap fun d => if d = '&' then "&amp;" else [d] := rfl
  rw [escape, hfirst]
  simp only [replace_flatMap]
  refine List.flatMap_congr fun d _ => ?_
  rw [escapeChar]
  by_cases hamp : d = '&'
  · subst hamp
    decide
  · by_cases hlt : d = '<'
    · subst hlt
      decide
    · by_cases hgt : d = '>'
      · subst hgt
        decide
      · by_cases hquot : d = '"'
        · subst hquot
          decide
        · by_cases hapos : d = '\''
          · subst hapos
            decide
          · simp only [hamp, hlt, hgt, hquot, hapos, if_false]
            rw [replace_singleton hlt, replace_singleton hgt, replace_singleton hquot,
              replace_singleton hapos]

theorem escape_cons (c : Char) (t : Str) : escape (c :: t) = escapeChar c ++ escape t := by
  rw [escape_eq_flatMap, escape_eq_flatMap, List.flatMap_cons]

theorem unescape_reference {r : Str × Char} (hr : r ∈ references) (t : Str) :
    unescape (r.1 ++ t) = r.2 :: unescape t := by
  simp only [references, List.mem_cons, List.not_mem_nil, or_false] at hr
  rcases hr with rfl | rfl | rfl | rfl | rfl <;> rfl

theorem unescape_cons {c : Char} (hc : c ≠ '&') (t : Str) : unescape (c :: t) = c :: unescape t := by
  have hnone : references.find? (fun r => r.1.isPrefixOf (c :: t)) = none := by
    rw [List.find?_eq_none]
    intro r hr hprefix
    simp only [references, List.mem_cons, List.not_mem_nil, or_false] at hr
    rcases hr with rfl | rfl | rfl | rfl | rfl
    all_goals
      rw [List.isPrefixOf_iff_prefix] at hprefix
      exact hc (List.cons_prefix_cons.mp hprefix).1.symm
  rw [unescape, unescapeFrom, hnone]
  rfl

theorem unescape_escapeChar (c : Char) (t : Str) :
    unescape (escapeChar c ++ t) = c :: unescape t := by
  rw [escapeChar]
  split_ifs with hamp hlt hgt hquot hapos
  · subst hamp
    exact unescape_reference (r := ("&amp;", '&')) (by decide) t
  · subst hlt
    exact unescape_reference (r := ("&lt;", '<')) (by decide) t
  · subst hgt
    exact unescape_reference (r := ("&gt;", '>')) (by decide) t
  · subst hquot
    exact unescape_reference (r := ("&quot;", '"')) (by decide) t
  · subst hapos
    exact unescape_reference (r := ("&#x27;", '\'')) (by decide) t
  · exact unescape_cons hamp t

theorem unescape_escape_append (t u : Str) : unescape (escape t ++ u) = t ++ unescape u := by
  induction t with
  | nil => rfl
  | cons c t ih =>
    rw [escape_cons, List.append_assoc, unescape_escapeChar, ih, List.cons_append]

theorem unescape_escape (t : Str) : unescape (escape t) = t := by
  have h := unescape_escape_append t []
  rwa [List.append_nil, show unescape [] = [] from rfl, List.append_nil] at h

theorem unescape_append_of_not_mem {t : Str} (h : '&' ∉ t) (u : Str) :
    unescape (t ++ u) = t ++ unescape u := by
  induction t with
  | nil => rfl
  | cons c t ih =>
    rw [List.mem_cons, not_or] at h
    rw [List.cons_append, unescape_cons (Ne.symm h.1), ih h.2, List.cons_append]

/-- The characters that end an attribute or start a tag. -/
def markup : List Char := ['<', '>', '"', '\'']

theorem not_mem_escape {c : Char} (hc : c ∈ markup) (t : Str) : c ∉ escape t := by
  have hchar : ∀ d, c ∉ escapeChar d := by
    intro d hd
    rw [escapeChar] at hd
    simp only [markup, List.mem_cons, List.not_mem_nil, or_false] at hc
    split_ifs at hd with hamp hlt hgt hquot hapos
    all_goals
      rcases hc with rfl | rfl | rfl | rfl
    all_goals first
      | exact absurd hd (by decide)
      | (cases List.mem_singleton.mp hd; contradiction)
  rw [escape_eq_flatMap]
  intro hmem
  obtain ⟨d, -, hd⟩ := List.mem_flatMap.mp hmem
  exact hchar d hd

end Lib.Html
