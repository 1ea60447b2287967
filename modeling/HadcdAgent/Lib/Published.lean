import HadcdAgent.Lib.Faults

/-!
# Readers of a file that is replaced

A writer fills temporary files and renames them to `path`; a reader opens `path` and reads
through its handle later on. The handle's file is one that no step of the writer reaches.
-/

namespace Lib

variable {π β : Type} [DecidableEq π]

/-- File `i` has no name but `path`, if any. -/
def Untied (path : π) (d : Disk π β) (i : ℕ) : Prop :=
  i < d.next ∧ ∀ q ≠ path, d.names q ≠ some i

/-- A step of a writer that fills other files and may rename them to `path`. -/
def FileStep.Beside (path : π) : FileStep π β → Prop
  | .truncate p | .append p _ | .rename p _ => p ≠ path
  | .attributes => True

variable {path p : π} {d : Disk π β} {s : FileStep π β} {i : ℕ}

omit [DecidableEq π] in
theorem untied_of_names (h : d.names path = some i) : Untied path d i :=
  ⟨d.bounded h, fun _ hq hname => hq (d.unlinked hname h)⟩

theorem Untied.create (h : Untied path d i) (hp : p ≠ path) :
    Untied path (d.create p) i ∧ (d.create p).data i = d.data i := by
  have hhandle : i ≠ d.handle p := by
    intro heq
    rw [Disk.handle] at heq
    cases hname : d.names p with
    | none =>
      rw [hname] at heq
      exact absurd h.1 (heq ▸ lt_irrefl _)
    | some j =>
      rw [hname] at heq
      exact h.2 p hp (heq ▸ hname)
  refine ⟨⟨Nat.lt_succ_of_lt h.1, fun q hq hname => ?_⟩, Disk.data_create_of_ne hhandle⟩
  by_cases hqp : q = p
  · rw [hqp, Disk.names_create_self] at hname
    exact hhandle (Option.some.inj hname).symm
  · rw [Disk.names_create_of_ne hqp] at hname
    exact h.2 q hq hname

theorem Untied.append (h : Untied path d i) (hp : p ≠ path) (byte : β) :
    Untied path (FileStep.apply d (.append p byte)) i ∧
      (FileStep.apply d (.append p byte)).data i = d.data i := by
  rw [FileStep.apply]
  cases hname : d.names p with
  | none => exact ⟨h, rfl⟩
  | some j =>
    have hij : i ≠ j := fun heq => h.2 p hp (heq ▸ hname)
    exact ⟨h, Disk.data_write_of_ne hij byte _ _⟩

theorem Untied.rename (h : Untied path d i) (hp : p ≠ path) (q : π) :
    Untied path (d.rename p q) i := by
  refine ⟨h.1, fun r hr hname => ?_⟩
  change Function.update (d.unlink p).names q (d.names p) r = some i at hname
  by_cases hrq : r = q
  · rw [hrq, Function.update_self] at hname
    exact h.2 p hp hname
  · rw [Function.update_of_ne hrq] at hname
    exact h.2 r hr (Disk.names_unlink_eq_some hname).2

theorem Untied.unlink (h : Untied path d i) (p : π) : Untied path (d.unlink p) i :=
  ⟨h.1, fun q hq hname => h.2 q hq (Disk.names_unlink_eq_some hname).2⟩

/-- **What a reader has opened stays as it is.** -/
theorem Untied.apply (h : Untied path d i) (hs : s.Beside path) :
    Untied path (FileStep.apply d s) i ∧ (FileStep.apply d s).data i = d.data i := by
  cases s with
  | truncate p => exact h.create hs
  | append p byte => exact h.append hs byte
  | rename p q => exact ⟨h.rename hs q, rfl⟩
  | attributes => exact ⟨h, rfl⟩

end Lib
