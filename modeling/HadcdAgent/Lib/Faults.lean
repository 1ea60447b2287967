import HadcdAgent.Lib.Disk

/-!
# File operations that are cut off

A file operation is a list of steps that each happen whole or not at all; a failure or a
crash cuts it off behind some of them. A text is written byte by byte, a rename is one
step.
-/

namespace Lib

inductive FileStep (π β : Type) where
  | truncate (p : π)
  | append (p : π) (byte : β)
  | rename (p q : π)
  | attributes

namespace FileStep

variable {π β : Type} [DecidableEq π]

def apply (d : Disk π β) : FileStep π β → Disk π β
  | truncate p => d.create p
  | append p byte =>
    match d.names p with
    | some i => d.write byte i (d.data i).length [byte]
    | none => d
  | rename p q => d.rename p q
  | attributes => d

def run (d : Disk π β) (steps : List (FileStep π β)) : Disk π β := steps.foldl apply d

def Touches (q : π) : FileStep π β → Prop
  | truncate p | append p _ => q = p
  | rename p p' => q = p ∨ q = p'
  | attributes => False

/-- `p.write_text(…)`. -/
def writeText (p : π) (bytes : List β) : List (FileStep π β) := truncate p :: bytes.map (append p)

variable {d : Disk π β} {p q : π} {s : FileStep π β} {steps : List (FileStep π β)}

theorem run_append (d : Disk π β) (steps steps' : List (FileStep π β)) :
    run d (steps ++ steps') = run (run d steps) steps' :=
  List.foldl_append ..

/-! ### What a step leaves alone -/

theorem read_apply_of_not_touches (h : ¬ s.Touches q) : (apply d s).read q = d.read q := by
  cases s with
  | truncate p => exact Disk.read_create_of_ne h
  | append p byte =>
    rw [apply]
    cases hp : d.names p with
    | none => rfl
    | some i => exact Disk.read_write_of_ne hp h byte _ [byte]
  | rename p p' => exact Disk.read_rename_of_ne (fun hp => h (Or.inl hp)) fun hp => h (Or.inr hp)
  | attributes => rfl

theorem read_run_of_not_touches (h : ∀ s ∈ steps, ¬ s.Touches q) :
    (run d steps).read q = d.read q := by
  induction steps generalizing d with
  | nil => rfl
  | cons s steps ih =>
    have hrest : (run (apply d s) steps).read q = (apply d s).read q :=
      ih fun t ht => h t (List.mem_cons_of_mem s ht)
    exact hrest.trans (read_apply_of_not_touches (h s (List.mem_cons_self ..)))

omit [DecidableEq π] in
theorem not_touches_writeText (hq : q ≠ p) (bytes : List β) :
    ∀ s ∈ writeText p bytes, ¬ s.Touches q := by
  intro s hs
  rcases List.mem_cons.mp hs with rfl | hs
  · exact hq
  · obtain ⟨byte, -, rfl⟩ := List.mem_map.mp hs
    exact hq

omit [DecidableEq π] in
theorem not_touches_attributes (q : π) :
    ∀ s ∈ ([attributes] : List (FileStep π β)), ¬ s.Touches q := by
  intro s hs
  rw [List.mem_singleton.mp hs]
  exact id

/-! ### A text under way -/

theorem read_append (d : Disk π β) (p : π) (byte : β) :
    (apply d (append p byte)).read p = (d.read p).map (· ++ [byte]) := by
  rw [apply]
  cases hp : d.names p with
  | none => simp only [Disk.read, hp, Option.map_none]
  | some i =>
    have hnames : (d.write byte i (d.data i).length [byte]).names p = some i := hp
    dsimp only
    rw [Disk.read, hnames, Option.map_some, Disk.data_write_self, Disk.writeAt_length, Disk.read,
      hp, Option.map_some, Option.map_some]

theorem read_appends (d : Disk π β) (p : π) (bytes : List β) :
    (run d (bytes.map (append p))).read p = (d.read p).map (· ++ bytes) := by
  induction bytes generalizing d with
  | nil =>
    change d.read p = _
    simp only [List.append_nil, Option.map_id']
  | cons byte bytes ih =>
    have hrest : (run d ((byte :: bytes).map (append p))).read p =
        ((apply d (append p byte)).read p).map (· ++ bytes) := ih _
    rw [hrest, read_append, Option.map_map]
    congr 1
    funext old
    exact List.append_assoc ..

theorem read_create (d : Disk π β) (p : π) : (d.create p).read p = some [] := by
  rw [Disk.read, Disk.names_create_self, Option.map_some, Disk.data_create_handle]

/-- A write that is cut off leaves the old text, or the first bytes of the new one. -/
theorem read_take_writeText (d : Disk π β) (p : π) (bytes : List β) (n : ℕ) :
    (run d ((writeText p bytes).take n)).read p =
      if n = 0 then d.read p else some (bytes.take (n - 1)) := by
  cases n with
  | zero => rfl
  | succ n =>
    rw [if_neg (Nat.succ_ne_zero n), writeText, List.take_succ_cons, ← List.map_take,
      Nat.add_sub_cancel]
    change (run (d.create p) _).read p = _
    rw [read_appends, read_create]
    rfl

theorem read_writeText (d : Disk π β) (p : π) (bytes : List β) :
    (run d (writeText p bytes)).read p = some bytes := by
  have h := read_take_writeText d p bytes (writeText p bytes).length
  rw [List.take_length, if_neg (by simp [writeText])] at h
  rw [h]
  simp [writeText]

/-! ### All or nothing -/

/-- When one step alone touches a file, the operation is atomic for it. -/
theorem read_take_around {pre post : List (FileStep π β)} (hpre : ∀ s ∈ pre, ¬ s.Touches q)
    (hpost : ∀ s ∈ post, ¬ s.Touches q) (n : ℕ) :
    (run d ((pre ++ s :: post).take n)).read q =
      if n ≤ pre.length then d.read q else (run d (pre ++ s :: post)).read q := by
  split_ifs with hn
  · rw [List.take_append_of_le_length hn]
    exact read_run_of_not_touches fun t ht => hpre t (List.mem_of_mem_take ht)
  · obtain ⟨k, rfl⟩ : ∃ k, n = pre.length + (k + 1) := ⟨n - pre.length - 1, by omega⟩
    have hsplit : ∀ rest, (∀ t ∈ rest, ¬ t.Touches q) →
        (run d (pre ++ s :: rest)).read q = (apply (run d pre) s).read q := by
      intro rest hrest
      rw [run_append]
      exact read_run_of_not_touches hrest
    rw [List.take_length_add_append, List.take_succ_cons, hsplit post hpost,
      hsplit _ fun t ht => hpost t (List.mem_of_mem_take ht)]

end FileStep
end Lib
