import HadcdAgent.Lib.Disk

/-!
# A file written through a buffer

The file object that opening for writing gives. What is written to it stands first in its
buffer; it comes to the disk when the buffer would overflow, when it is itself longer than
the buffer, or when the file is closed.
-/

namespace Lib

/-- `flushed` has come to the disk, from the beginning of the file on; `pending` is in the
buffer. -/
structure BufferedFile (β : Type) where
  handle : ℕ
  flushed : List β
  pending : List β
  deriving DecidableEq

namespace BufferedFile

variable {π β : Type}

def opened (handle : ℕ) : BufferedFile β := ⟨handle, [], []⟩

def written (f : BufferedFile β) : List β := f.flushed ++ f.pending

/-- The disk when `out` goes from the file object to its file. -/
def emit (zero : β) (disk : Disk π β) (f : BufferedFile β) (out : List β) : Disk π β :=
  if out = [] then disk else disk.write zero f.handle f.flushed.length out

def flush (f : BufferedFile β) : BufferedFile β := ⟨f.handle, f.written, []⟩

/-- `f.write(bytes)`, with a buffer of `size`. -/
def write (zero : β) (size : ℕ) (disk : Disk π β) (f : BufferedFile β) (bytes : List β) :
    BufferedFile β × Disk π β :=
  if f.pending.length + bytes.length ≤ size then
    (⟨f.handle, f.flushed, f.pending ++ bytes⟩, disk)
  else
    let disk := emit zero disk f f.pending
    let f := f.flush
    if bytes.length ≤ size then (⟨f.handle, f.flushed, bytes⟩, disk)
    else (⟨f.handle, f.flushed ++ bytes, []⟩, emit zero disk f bytes)

/-- `f.close()`. -/
def close (zero : β) (disk : Disk π β) (f : BufferedFile β) : BufferedFile β × Disk π β :=
  (f.flush, emit zero disk f f.pending)

/-! ### What reaches the disk -/

variable {zero : β} {size : ℕ} {disk : Disk π β} {f : BufferedFile β} {bytes out : List β}

theorem emit_nil (zero : β) (disk : Disk π β) (f : BufferedFile β) : emit zero disk f [] = disk :=
  rfl

theorem emit_of_ne (h : out ≠ []) :
    emit zero disk f out = disk.write zero f.handle f.flushed.length out := if_neg h

theorem names_emit (zero : β) (disk : Disk π β) (f : BufferedFile β) (out : List β) :
    (emit zero disk f out).names = disk.names := by
  rw [emit]
  split_ifs <;> rfl

/-- Two pieces that go out one after the other are one piece. -/
theorem emit_append (zero : β) (disk : Disk π β) (f : BufferedFile β) (out more : List β) :
    emit zero (emit zero disk f out) ⟨f.handle, f.flushed ++ out, []⟩ more =
      emit zero disk f (out ++ more) := by
  by_cases hmore : more = []
  · rw [hmore, emit_nil, List.append_nil]
  · by_cases hout : out = []
    · subst hout
      rw [emit_nil, List.append_nil, List.nil_append]
      rfl
    · have hboth : out ++ more ≠ [] := fun h => hout (List.append_eq_nil_iff.mp h).1
      rw [emit_of_ne hmore, emit_of_ne hout, emit_of_ne hboth, List.length_append]
      exact Disk.write_write ..

/-- What is written splits into what goes out now and what the buffer keeps. -/
theorem exists_write (zero : β) (size : ℕ) (disk : Disk π β) (f : BufferedFile β)
    (bytes : List β) : ∃ out rest, f.pending ++ bytes = out ++ rest ∧
      write zero size disk f bytes = (⟨f.handle, f.flushed ++ out, rest⟩, emit zero disk f out) ∧
      (size < bytes.length → rest = []) := by
  rw [write]
  split_ifs with hfits hshort
  · refine ⟨[], f.pending ++ bytes, rfl, ?_, fun hlong => ?_⟩
    · rw [List.append_nil, emit_nil]
    · omega
  · exact ⟨f.pending, bytes, rfl, rfl, fun hlong => absurd hshort (Nat.not_le_of_lt hlong)⟩
  · refine ⟨f.pending ++ bytes, [], (List.append_nil _).symm, ?_, fun _ => rfl⟩
    have hdisk := emit_append zero disk f f.pending bytes
    rw [← hdisk, ← List.append_assoc]
    rfl

theorem write_of_long (h : size < bytes.length) : write zero size disk f bytes =
    (⟨f.handle, f.written ++ bytes, []⟩, emit zero disk f (f.pending ++ bytes)) := by
  obtain ⟨out, rest, hsplit, hwrite, hrest⟩ := exists_write zero size disk f bytes
  rw [hrest h, List.append_nil] at hsplit
  rw [hwrite, hrest h, ← hsplit, written, List.append_assoc]

theorem close_write (zero : β) (size : ℕ) (disk : Disk π β) (f : BufferedFile β)
    (bytes : List β) :
    close zero (write zero size disk f bytes).2 (write zero size disk f bytes).1 =
      (⟨f.handle, f.written ++ bytes, []⟩, emit zero disk f (f.pending ++ bytes)) := by
  obtain ⟨out, rest, hsplit, hwrite, -⟩ := exists_write zero size disk f bytes
  have hwritten : f.written ++ bytes = f.flushed ++ out ++ rest := by
    rw [written, List.append_assoc, hsplit, List.append_assoc]
  rw [hwrite, hwritten, hsplit]
  exact Prod.ext rfl (emit_append zero disk f out rest)

end BufferedFile
end Lib
