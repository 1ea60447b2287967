import HadcdAgent.Lib.PyStr

/-!
# CSV text

`csv.writer` and `csv.reader` with the dialect `excel`, on a file that was opened with
`newline=""`: rows are read back as they were written, whatever their cells hold.
-/

namespace Lib.Csv

/-! ### Writing -/

def needsQuotes (cell : Str) : Bool := cell.any (· ∈ ([',', '"', '\r', '\n'] : Str))

def double (c : Char) : Str := if c = '"' then ['"', '"'] else [c]

def writeCell (cell : Str) : Str :=
  if needsQuotes cell then '"' :: (cell.flatMap double ++ ['"']) else cell

def joinCells : List Str → Str
  | [] => []
  | [cell] => writeCell cell
  | cell :: row => writeCell cell ++ ',' :: joinCells row

/-- A row of one empty cell would be a blank line. -/
def writeRow (row : List Str) : Str :=
  (if row = [[]] then ['"', '"'] else joinCells row) ++ ['\r', '\n']

/-! ### Reading -/

/-- `afterCr`: the line ended with a carriage return, and a line feed still belongs to it. -/
inductive Mode where
  | startRecord
  | afterCr
  | startField
  | inField
  | quoted
  | quoteInQuoted
  deriving DecidableEq

def Mode.between : Mode → Bool
  | .startRecord | .afterCr => true
  | _ => false

/-- A blank line is a row without cells. -/
def endRow (mode : Mode) (row : List Str) (field : Str) : List Str :=
  if mode.between then [] else row ++ [field]

/-- What a quote does outside of a quoted field. -/
def onQuote : Mode → Mode × Str
  | .startRecord | .afterCr | .startField => (.quoted, [])
  | .quoteInQuoted => (.quoted, ['"'])
  | .inField | .quoted => (.inField, ['"'])

def readRows (mode : Mode) (row : List Str) (field : Str) : Str → List (List Str)
  | [] => if mode.between then [] else [row ++ [field]]
  | c :: rest =>
    if mode = .quoted then
      if c = '"' then readRows .quoteInQuoted row field rest
      else readRows .quoted row (field ++ [c]) rest
    else if c = '\n' then
      if mode = .afterCr then readRows .startRecord row field rest
      else endRow mode row field :: readRows .startRecord [] [] rest
    else if c = '\r' then endRow mode row field :: readRows .afterCr [] [] rest
    else if c = ',' then readRows .startField (row ++ [field]) [] rest
    else if c = '"' then readRows (onQuote mode).1 row (field ++ (onQuote mode).2) rest
    else readRows .inField row (field ++ [c]) rest

def read (text : Str) : List (List Str) := readRows .startRecord [] [] text

/-! ### One row after the other -/

@[simp] theorem readRows_quoted_quote (row : List Str) (field rest : Str) :
    readRows .quoted row field ('"' :: rest) = readRows .quoteInQuoted row field rest := by
  simp [readRows]

@[simp] theorem readRows_quoteInQuoted_quote (row : List Str) (field rest : Str) :
    readRows .quoteInQuoted row field ('"' :: rest)
      = readRows .quoted row (field ++ ['"']) rest := by
  simp [readRows, onQuote]

theorem readRows_comma {mode : Mode} (hmode : mode ≠ .quoted) (row : List Str)
    (field rest : Str) :
    readRows mode row field (',' :: rest) = readRows .startField (row ++ [field]) [] rest := by
  rw [readRows, if_neg hmode, if_neg (by decide), if_neg (by decide), if_pos rfl]

theorem readRows_crlf {mode : Mode} (hmode : mode ≠ .quoted) (row : List Str)
    (field rest : Str) :
    readRows mode row field ('\r' :: '\n' :: rest)
      = endRow mode row field :: readRows .startRecord [] [] rest := by
  rw [readRows, if_neg hmode, if_neg (by decide), if_pos rfl, readRows, if_neg (by decide),
    if_pos rfl, if_pos rfl]

theorem readRows_plain {mode : Mode} (hmode : mode ≠ .quoted) (row : List Str) (field : Str)
    {c : Char} (hc : c ∉ ([',', '"', '\r', '\n'] : Str)) (rest : Str) :
    readRows mode row field (c :: rest) = readRows .inField row (field ++ [c]) rest := by
  simp only [List.mem_cons, List.not_mem_nil, or_false, not_or] at hc
  rw [readRows, if_neg hmode, if_neg hc.2.2.2, if_neg hc.2.2.1, if_neg hc.1, if_neg hc.2.1]

/-- Inside of quotes everything is kept, and a doubled quote is one. -/
theorem readRows_double (row : List Str) (cell field rest : Str) :
    readRows .quoted row field (cell.flatMap double ++ '"' :: rest)
      = readRows .quoteInQuoted row (field ++ cell) rest := by
  induction cell generalizing field with
  | nil => simp
  | cons c cell ih =>
      by_cases hc : c = '"'
      · subst hc
        simp [double, ih]
      · simp [double, hc, readRows, ih]

theorem readRows_unquoted (row : List Str) (cell field rest : Str)
    (hcell : needsQuotes cell = false) :
    readRows .inField row field (cell ++ rest) = readRows .inField row (field ++ cell) rest := by
  induction cell generalizing field with
  | nil => simp
  | cons c cell ih =>
      obtain ⟨hc, htail⟩ : c ∉ ([',', '"', '\r', '\n'] : Str) ∧ needsQuotes cell = false := by
        simpa [needsQuotes] using hcell
      rw [List.cons_append, readRows_plain (by decide) row field hc, ih _ htail,
        List.append_assoc, List.singleton_append]

/-- A cell is read where a cell may start. Only an empty one leaves the reader in the state
it was in. -/
theorem readRows_writeCell {mode : Mode} (hmode : mode = .startRecord ∨ mode = .startField)
    (row : List Str) (cell rest : Str) :
    ∃ after, readRows mode row [] (writeCell cell ++ rest) = readRows after row cell rest
      ∧ after ≠ .quoted ∧ (after.between → mode.between ∧ cell = []) := by
  by_cases hquotes : needsQuotes cell = true
  · refine ⟨.quoteInQuoted, ?_, by decide, fun h => absurd h (by decide)⟩
    have hopen : readRows mode row [] ('"' :: (cell.flatMap double ++ '"' :: rest))
        = readRows .quoted row [] (cell.flatMap double ++ '"' :: rest) := by
      obtain rfl | rfl := hmode <;> simp [readRows, onQuote]
    simpa [writeCell, hquotes, readRows_double] using hopen
  · have hplain : needsQuotes cell = false := by simpa using hquotes
    cases cell with
    | nil =>
        refine ⟨mode, by simp [writeCell, hplain], ?_, fun h => ⟨h, rfl⟩⟩
        obtain rfl | rfl := hmode <;> decide
    | cons c cell =>
        obtain ⟨hc, htail⟩ : c ∉ ([',', '"', '\r', '\n'] : Str) ∧ needsQuotes cell = false := by
          simpa [needsQuotes] using hplain
        have hquoted : mode ≠ .quoted := by obtain rfl | rfl := hmode <;> decide
        refine ⟨.inField, ?_, by decide, fun h => absurd h (by decide)⟩
        rw [writeCell, if_neg hquotes, List.cons_append,
          readRows_plain hquoted row [] hc, readRows_unquoted row cell _ rest htail]
        rfl

theorem readRows_joinCells {mode : Mode} (hmode : mode = .startRecord ∨ mode = .startField)
    (row cells : List Str) (hcells : cells ≠ [])
    (hempty : mode.between → cells ≠ [[]]) (rest : Str) :
    readRows mode row [] (joinCells cells ++ '\r' :: '\n' :: rest)
      = (row ++ cells) :: readRows .startRecord [] [] rest := by
  induction cells generalizing mode row with
  | nil => exact absurd rfl hcells
  | cons cell cells ih =>
      cases cells with
      | nil =>
          obtain ⟨after, hread, hquoted, hblank⟩ :=
            readRows_writeCell hmode row cell ('\r' :: '\n' :: rest)
          have hafter : ¬ after.between := by
            intro h
            obtain ⟨hstart, hcell⟩ := hblank h
            exact hempty hstart (by rw [hcell])
          rw [joinCells, hread, readRows_crlf hquoted, endRow, if_neg hafter]
      | cons next cells =>
          obtain ⟨after, hread, hquoted, -⟩ := readRows_writeCell hmode row cell
            (',' :: (joinCells (next :: cells) ++ '\r' :: '\n' :: rest))
          have hjoin : joinCells (cell :: next :: cells) ++ '\r' :: '\n' :: rest
              = writeCell cell ++ ',' :: (joinCells (next :: cells) ++ '\r' :: '\n' :: rest) := by
            rw [joinCells, List.append_assoc, List.cons_append]
            simp
          rw [hjoin, hread, readRows_comma hquoted,
            ih (.inr rfl) (row ++ [cell]) (by simp) (fun h => absurd h (by decide)), List.append_assoc,
            List.singleton_append]

theorem readRows_writeRow {row : List Str} (hrow : row ≠ []) (rest : Str) :
    readRows .startRecord [] [] (writeRow row ++ rest)
      = row :: readRows .startRecord [] [] rest := by
  by_cases hempty : row = [[]]
  · subst hempty
    simp [writeRow, readRows, onQuote, endRow, Mode.between]
  · have := readRows_joinCells (.inl rfl) [] row hrow (fun _ => hempty) rest
    simpa [writeRow, hempty] using this

/-- **What was written row by row is read back row by row.** -/
theorem read_writeRows {rows : List (List Str)} (hrows : ∀ row ∈ rows, row ≠ []) :
    read (rows.flatMap writeRow) = rows := by
  induction rows with
  | nil => rfl
  | cons row rows ih =>
      have htail := ih fun other hother => hrows other (List.mem_cons_of_mem row hother)
      rw [List.flatMap_cons, read, readRows_writeRow (hrows row List.mem_cons_self), ← read, htail]

end Lib.Csv
