import HadcdAgent.Executor
import HadcdAgent.Lib.ForRange
import Mathlib.Data.Matrix.Mul
import Mathlib.Data.Nat.Fib.Basic
import Mathlib.LinearAlgebra.Matrix.Trace

/-!
# The built-in handlers

`_fib` and `_matrix_multiply` (`hadcd_workloads/handlers.py`), run by `run_registered`.
The numbers of the matrices are of any type with `+` and `*`, so that the order of the
operations counts, as it does for floats. Each loop also counts its rounds.
-/

namespace HadcdAgent.Handlers

open Lib Executor

/-! ### The source -/

/-- What the handlers take of Python: `int`, `random.Random(seed).random()` by its calls,
`sum`, and a number as a value of the result. -/
structure Python (R : Type) where
  int : Json → Except Exn ℤ
  random : ℤ → ℕ → R
  sum : List R → R
  value : R → Json

def valueError (message : Str) : Exn := ⟨"ValueError", message, false, true⟩

def ended {α β : Type} (x : Except Exn α) (f : α → Ending β) : Ending β :=
  match x with
  | .ok a => f a
  | .error e => .raises e

/-- `rec` of `_fib`, with the number of its calls. -/
def fibRec : ℕ → ℕ × ℕ
  | 0 => (0, 1)
  | 1 => (1, 1)
  | k + 2 => ((fibRec (k + 1)).1 + (fibRec k).1, (fibRec (k + 1)).2 + (fibRec k).2 + 1)

section Source

variable {R : Type} (py : Python R)

def fib (args : TaskDict) : Ending Json :=
  ended (py.int ((lookup ("n" : Str) args).getD (.int 28))) fun n =>
    if n < 0 ∨ n > 35 then .raises (valueError "fib 'n' must be between 0 and 35")
    else .returns (.obj [("n", .int n), ("value", .int (fibRec n.toNat).1)])

/-- `[[rng.random() for _ in range(size)] for _ in range(size)]` after `drawn` calls. -/
def randomMatrix (random : ℕ → R) (size drawn : ℕ) : List (List R) :=
  (List.range size).map fun i => (List.range size).map fun j => random (drawn + i * size + j)

variable [Zero R] [Add R] [Mul R]

/-- The product as far as it has come, and the additions to an entry so far. -/
structure Product (R : Type) where
  c : List (List R)
  additions : ℕ

/-- `c_row[j] += a_ik * b_row[j]`. -/
def addTo (i : ℕ) (aik : R) (bRow : List R) (j : ℕ) (p : Product R) : Product R :=
  ⟨p.c.modify i (·.modify j (· + aik * bRow.getD j 0)), p.additions + 1⟩

def multiply (size : ℕ) (a b : List (List R)) : Product R :=
  forRange size (fun i p =>
    let aRow := a.getD i []
    forRange size (fun k p => forRange size (addTo i (aRow.getD k 0) (b.getD k [])) p) p)
    ⟨List.replicate size (List.replicate size 0), 0⟩

def diagonal (size : ℕ) (c : List (List R)) : List R :=
  (List.range size).map fun i => (c.getD i []).getD i 0

def product (seed : ℤ) (size : ℕ) : Product R :=
  multiply size (randomMatrix (py.random seed) size 0) (randomMatrix (py.random seed) size (size * size))

def matrixMultiply (args : TaskDict) : Ending Json :=
  ended (py.int ((lookup ("size" : Str) args).getD (.int 60))) fun size =>
    if size < 1 ∨ size > 400 then
      .raises (valueError "matrix_multiply 'size' must be between 1 and 400")
    else
      ended (py.int ((lookup ("seed" : Str) args).getD (.int 0))) fun seed =>
        let checksum := py.sum (diagonal size.toNat (product py seed size.toNat).c)
        .returns (.obj [("size", .int size), ("trace_checksum", py.value checksum)])

end Source

/-! ### The product -/

theorem fibRec_eq (n : ℕ) : fibRec n = (Nat.fib n, 2 * Nat.fib (n + 1) - 1) := by
  induction n using fibRec.induct with
  | case1 => rfl
  | case2 => rfl
  | case3 k ih1 ih2 =>
    change fibRec (k + 2) = (Nat.fib (k + 2), 2 * Nat.fib (k + 3) - 1)
    have hnext : fibRec (k + 1) = (Nat.fib (k + 1), 2 * Nat.fib (k + 2) - 1) := ih1
    have hpos : 0 < Nat.fib (k + 1) := Nat.fib_pos.mpr (Nat.succ_pos k)
    have hpos' : 0 < Nat.fib (k + 2) := Nat.fib_pos.mpr (Nat.succ_pos _)
    have hvalue : Nat.fib (k + 2) = Nat.fib k + Nat.fib (k + 1) := Nat.fib_add_two
    have hcalls : Nat.fib (k + 3) = Nat.fib (k + 1) + Nat.fib (k + 2) := Nat.fib_add_two
    rw [fibRec, hnext, ih2]
    refine Prod.ext ?_ ?_
    · dsimp only
      omega
    · dsimp only
      omega

/-- The bound on `n` bounds the calls. -/
theorem fibRec_le {n : ℕ} (h : n ≤ 35) : (fibRec n).2 ≤ 29860703 := by
  have hmono : Nat.fib (n + 1) ≤ Nat.fib 36 := Nat.fib_mono (by omega)
  have hfib : Nat.fib 36 = 14930352 := by decide +kernel
  rw [fibRec_eq]
  dsimp only
  omega

/-- A call that is not refused returns the Fibonacci number. -/
theorem fib_eq {R : Type} (py : Python R) (args : TaskDict) :
    fib py args = ended (py.int ((lookup ("n" : Str) args).getD (.int 28))) fun n =>
      if n < 0 ∨ n > 35 then .raises (valueError "fib 'n' must be between 0 and 35")
      else .returns (.obj [("n", .int n), ("value", .int (Nat.fib n.toNat))]) := by
  unfold fib
  congr 1
  funext n
  rw [fibRec_eq]

section Product

variable {R : Type} [Zero R] [Add R] [Mul R]

/-- The entry in row `i` and column `j`. -/
def entry (rows : List (List R)) (i j : ℕ) : Option R := rows[i]?.bind fun row => row[j]?

theorem entry_addTo (i : ℕ) (x : R) (bRow : List R) (j : ℕ) (p : Product R) (m n : ℕ) :
    entry (addTo i x bRow j p).c m n =
      (entry p.c m n).map fun y => if j = n then (if i = m then y + x * bRow.getD n 0 else y) else y := by
  rw [addTo, entry, entry, List.getElem?_modify]
  cases p.c[m]? with
  | none => rfl
  | some row =>
    by_cases him : i = m
    · simp only [him, if_true, Option.map_eq_map, Option.map_some, Option.bind_some]
      rw [List.getElem?_modify]
      cases row[n]? with
      | none => rfl
      | some y =>
        by_cases hjn : j = n
        · simp only [hjn, if_true, Option.map_eq_map, Option.map_some]
        · simp only [hjn, if_false, Option.map_eq_map, Option.map_some]
    · simp only [him, if_false, Option.map_eq_map, Option.map_some, Option.bind_some, ite_self]
      cases row[n]? <;> rfl

/-- One row of `b`, times one entry of `a`, is added to row `i`. -/
theorem entry_addRow (size i : ℕ) (x : R) (bRow : List R) (p : Product R) {m n : ℕ}
    (hn : n < size) :
    entry (forRange size (addTo i x bRow) p).c m n =
      (entry p.c m n).map fun y => if i = m then y + x * bRow.getD n 0 else y := by
  have hhom := forRange_hom (fun p : Product R => entry p.c m n) (f := addTo i x bRow)
    (fun j p => entry_addTo i x bRow j p m n) size p
  rw [hhom, forRange_map]
  congr 1
  funext y
  rw [forRange_single, if_pos hn]

/-- Row `i` of the product is the sum over `k`, one term after the other. -/
def dot (size : ℕ) (x y : ℕ → R) : R := forRange size (fun k acc => acc + x k * y k) 0

omit [Add R] [Mul R] in
theorem entry_replicate {size m n : ℕ} (hm : m < size) (hn : n < size) :
    entry (List.replicate size (List.replicate size (0 : R))) m n = some 0 := by
  rw [entry, List.getElem?_replicate_of_lt hm, Option.bind_some, List.getElem?_replicate_of_lt hn]

/-- Whatever `+` and `*` are, the loop over the rows of `b` adds to each entry the same
terms in the same order as the sum over `k`. -/
theorem entry_multiply {size m n : ℕ} (a b : List (List R)) (hm : m < size) (hn : n < size) :
    entry (multiply size a b).c m n =
      some (dot size (fun k => (a.getD m []).getD k 0) fun k => (b.getD k []).getD n 0) := by
  have hrow : ∀ i p, entry (forRange size (fun k p =>
        forRange size (addTo i ((a.getD i []).getD k 0) (b.getD k [])) p) p).c m n =
      (entry p.c m n).map fun y => if i = m then forRange size (fun k acc =>
        acc + (a.getD m []).getD k 0 * (b.getD k []).getD n 0) y else y := by
    intro i p
    have hhom := forRange_hom (fun p : Product R => entry p.c m n)
      (fun k p => entry_addRow size i ((a.getD i []).getD k 0) (b.getD k []) p hn) size p
    rw [hhom, forRange_map]
    congr 1
    funext y
    by_cases him : i = m
    · simp only [him, if_true]
    · simp only [him, if_false, forRange_id]
  have hhom := forRange_hom (fun p : Product R => entry p.c m n) hrow size
    ⟨List.replicate size (List.replicate size 0), 0⟩
  rw [multiply, hhom, forRange_map, entry_replicate hm hn, Option.map_some, forRange_single,
    if_pos hm]
  rfl

theorem additions_multiply (size : ℕ) (a b : List (List R)) :
    (multiply size a b).additions = size * (size * size) := by
  have hinner : ∀ (i k : ℕ) (p : Product R), (forRange size
      (addTo i ((a.getD i []).getD k 0) (b.getD k [])) p).additions = p.additions + size := by
    intro i k p
    rw [forRange_hom Product.additions (g := fun _ t => t + 1) (fun _ _ => rfl),
      forRange_add_const, Nat.mul_one]
  have hmiddle : ∀ (i : ℕ) (p : Product R), (forRange size (fun k p => forRange size
      (addTo i ((a.getD i []).getD k 0) (b.getD k [])) p) p).additions =
        p.additions + size * size := by
    intro i p
    rw [forRange_hom Product.additions (g := fun _ t => t + size) (hinner i), forRange_add_const]
  rw [multiply, forRange_hom Product.additions (g := fun _ t => t + size * size) hmiddle,
    forRange_add_const, Nat.zero_add]

omit [Add R] [Mul R] in
theorem getD_of_entry {c : List (List R)} {i j : ℕ} {x : R} (h : entry c i j = some x) :
    (c.getD i []).getD j 0 = x := by
  obtain ⟨row, hrow, hx⟩ := Option.bind_eq_some_iff.mp h
  simp only [List.getD_eq_getElem?_getD, hrow, Option.getD_some, hx]

omit [Zero R] [Add R] [Mul R] in
theorem entry_randomMatrix (random : ℕ → R) {size : ℕ} (drawn : ℕ) {i j : ℕ} (hi : i < size)
    (hj : j < size) :
    entry (randomMatrix random size drawn) i j = some (random (drawn + i * size + j)) := by
  simp only [entry, randomMatrix, List.getElem?_map, List.getElem?_range hi, Option.map_some,
    Option.bind_some, List.getElem?_range hj]

theorem dot_congr {size : ℕ} {x x' y y' : ℕ → R} (hx : ∀ k < size, x k = x' k)
    (hy : ∀ k < size, y k = y' k) : dot size x y = dot size x' y' := by
  unfold dot
  induction size with
  | zero => rfl
  | succ size ih =>
    rw [forRange_succ, forRange_succ, hx size (Nat.lt_succ_self size),
      hy size (Nat.lt_succ_self size), ih (fun k hk => hx k (Nat.lt_succ_of_lt hk))
        fun k hk => hy k (Nat.lt_succ_of_lt hk)]

/-- The draw that is the entry of `a`, or of `b`. -/
def drawA (random : ℕ → R) (size i k : ℕ) : R := random (i * size + k)

def drawB (random : ℕ → R) (size k j : ℕ) : R := random (size * size + k * size + j)

theorem diagonal_product (py : Python R) (seed : ℤ) (size : ℕ) :
    diagonal size (product py seed size).c = (List.range size).map fun i =>
      dot size (drawA (py.random seed) size i) fun k => drawB (py.random seed) size k i := by
  refine List.map_congr_left fun i hi => ?_
  have hlt : i < size := List.mem_range.mp hi
  refine (getD_of_entry (entry_multiply _ _ hlt hlt)).trans (dot_congr (fun k hk => ?_) fun k hk => ?_)
  · rw [getD_of_entry (entry_randomMatrix _ _ hlt hk), Nat.zero_add]
    rfl
  · exact getD_of_entry (entry_randomMatrix _ _ hk hlt)

/-- The handler as its result is defined: the trace of the product of the two matrices,
each entry on the diagonal summed for itself. -/
def traceChecksum (py : Python R) (args : TaskDict) : Ending Json :=
  ended (py.int ((lookup ("size" : Str) args).getD (.int 60))) fun size =>
    if size < 1 ∨ size > 400 then
      .raises (valueError "matrix_multiply 'size' must be between 1 and 400")
    else
      ended (py.int ((lookup ("seed" : Str) args).getD (.int 0))) fun seed =>
        let n := size.toNat
        let terms := (List.range n).map fun i =>
          dot n (drawA (py.random seed) n i) fun k => drawB (py.random seed) n k i
        .returns (.obj [("size", .int size), ("trace_checksum", py.value (py.sum terms))])

/-- In whatever arithmetic: the loops in the order `i`, `k`, `j`, over rows updated in
place, give the checksum as it is defined, after `size ^ 3` additions. -/
theorem matrixMultiply_eq (py : Python R) (args : TaskDict) :
    matrixMultiply py args = traceChecksum py args ∧
      ∀ seed size, (product py seed size).additions = size ^ 3 := by
  constructor
  · simp only [matrixMultiply, traceChecksum, diagonal_product]
  · intro seed size
    rw [product, additions_multiply, Nat.pow_succ, Nat.pow_two, Nat.mul_assoc]

end Product

/-- Where sums may be reordered, that is the trace of the matrix product. -/
theorem sum_diagonal_product {R : Type} [NonUnitalNonAssocSemiring R] (py : Python R) (seed : ℤ)
    (size : ℕ) :
    (diagonal size (product py seed size).c).sum =
      Matrix.trace ((Matrix.of fun i k : Fin size => drawA (py.random seed) size i k) *
        Matrix.of fun k j : Fin size => drawB (py.random seed) size k j) := by
  have hlist : ∀ (f : ℕ → R) (n : ℕ), ((List.range n).map f).sum = ∑ i ∈ Finset.range n, f i := by
    intro f n
    induction n with
    | zero => rfl
    | succ n ih => rw [List.sum_range_succ, ih, Finset.sum_range_succ]
  rw [diagonal_product, hlist, Matrix.trace, ← Fin.sum_univ_eq_sum_range]
  refine Finset.sum_congr rfl fun i _ => ?_
  rw [Matrix.diag_apply, Matrix.mul_apply, dot, forRange_sum, ← Fin.sum_univ_eq_sum_range]
  rfl

end HadcdAgent.Handlers
