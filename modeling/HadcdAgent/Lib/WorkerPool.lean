import Mathlib.Data.List.Basic
import Mathlib.Data.List.Nodup

/-!
# A pool of workers behind a bounded queue

A submitted job waits, and may be cancelled, until it is handed over to the workers'
queue of `workers + 1` places; from there a free worker takes it. `submitted` and
`started` record what has gone by.
-/

namespace Lib

structure WorkerPool (α : Type*) where
  waiting : List α
  called : List α
  running : List α
  closed : Bool
  submitted : List α
  started : List α

namespace WorkerPool

variable {α : Type*}

def idle : WorkerPool α := ⟨[], [], [], false, [], []⟩

def submit (p : WorkerPool α) (a : α) : WorkerPool α :=
  { p with waiting := p.waiting ++ [a], submitted := p.submitted ++ [a] }

def feed (workers : ℕ) (p : WorkerPool α) : Option (WorkerPool α) :=
  match p.waiting with
  | [] => none
  | a :: rest =>
    if p.called.length ≤ workers then some { p with waiting := rest, called := p.called ++ [a] }
    else none

def take (workers : ℕ) (p : WorkerPool α) : Option (WorkerPool α) :=
  match p.called with
  | [] => none
  | a :: rest =>
    if p.running.length < workers then
      some { p with called := rest, running := p.running ++ [a], started := p.started ++ [a] }
    else none

/-- The job of the worker at `k` has ended. -/
def release (p : WorkerPool α) (k : ℕ) : WorkerPool α :=
  { p with running := p.running.eraseIdx k }

def cancelWaiting (p : WorkerPool α) : WorkerPool α := { p with waiting := [] }

def close (p : WorkerPool α) : WorkerPool α := { p with waiting := [], closed := true }

/-- A worker has died, and the pool with it. -/
def breakUp (p : WorkerPool α) : WorkerPool α :=
  { p with waiting := [], called := [], running := [], closed := true }

/-- What the pool still has to do, in the order in which it came. -/
def inHand (p : WorkerPool α) : List α := p.running ++ p.called ++ p.waiting

structure Orderly (workers : ℕ) (p : WorkerPool α) : Prop where
  inOrder : (p.started ++ p.called ++ p.waiting).Sublist p.submitted
  runs : p.running.Sublist p.started
  running_le : p.running.length ≤ workers
  called_le : p.called.length ≤ workers + 1

theorem feed_eq_some_iff {workers : ℕ} {p q : WorkerPool α} : p.feed workers = some q ↔
    ∃ a rest, p.waiting = a :: rest ∧ p.called.length ≤ workers ∧
      q = { p with waiting := rest, called := p.called ++ [a] } := by
  unfold feed
  split
  case h_1 h => simp [h]
  case h_2 a rest h =>
    rw [h]
    split_ifs with hc
    · exact ⟨fun hq => ⟨a, rest, rfl, hc, (Option.some.inj hq).symm⟩,
        fun ⟨_, _, hw, _, hq⟩ => by cases hw; rw [hq]⟩
    · exact ⟨fun hq => False.elim hq, fun ⟨_, _, _, h, _⟩ => absurd h hc⟩

theorem take_eq_some_iff {workers : ℕ} {p q : WorkerPool α} : p.take workers = some q ↔
    ∃ a rest, p.called = a :: rest ∧ p.running.length < workers ∧
      q = { p with called := rest, running := p.running ++ [a], started := p.started ++ [a] } := by
  unfold take
  split
  case h_1 h => simp [h]
  case h_2 a rest h =>
    rw [h]
    split_ifs with hc
    · exact ⟨fun hq => ⟨a, rest, rfl, hc, (Option.some.inj hq).symm⟩,
        fun ⟨_, _, hw, _, hq⟩ => by cases hw; rw [hq]⟩
    · exact ⟨fun hq => False.elim hq, fun ⟨_, _, _, h, _⟩ => absurd h hc⟩

/-! ### What is in hand -/

theorem inHand_submit (p : WorkerPool α) (a : α) : (p.submit a).inHand = p.inHand ++ [a] := by
  simp only [inHand, submit, List.append_assoc]

theorem inHand_feed {workers : ℕ} {p q : WorkerPool α} (h : p.feed workers = some q) :
    q.inHand = p.inHand := by
  obtain ⟨a, rest, hw, -, rfl⟩ := feed_eq_some_iff.mp h
  simp only [inHand, hw, List.append_assoc, List.singleton_append]

theorem inHand_take {workers : ℕ} {p q : WorkerPool α} (h : p.take workers = some q) :
    q.inHand = p.inHand := by
  obtain ⟨a, rest, hc, -, rfl⟩ := take_eq_some_iff.mp h
  simp only [inHand, hc, List.append_assoc, List.cons_append, List.nil_append]

theorem inHand_release {p : WorkerPool α} {k : ℕ} (hk : k < p.running.length) :
    (p.release k).inHand = p.inHand.eraseIdx k := by
  simp only [inHand, release, List.append_assoc]
  rw [List.eraseIdx_append_of_lt_length hk]

/-! ### Order and bounds -/

namespace Orderly

variable {workers : ℕ} {p q : WorkerPool α}

theorem idle (workers : ℕ) : Orderly workers (idle : WorkerPool α) :=
  ⟨List.Sublist.slnil, List.Sublist.slnil, Nat.zero_le _, Nat.zero_le _⟩

theorem submit (h : Orderly workers p) (a : α) : Orderly workers (p.submit a) where
  inOrder := by
    have happ := h.inOrder.append (List.Sublist.refl [a])
    rwa [List.append_assoc] at happ
  runs := h.runs
  running_le := h.running_le
  called_le := h.called_le

theorem feed (h : Orderly workers p) (hq : p.feed workers = some q) : Orderly workers q := by
  obtain ⟨a, rest, hw, hc, rfl⟩ := feed_eq_some_iff.mp hq
  refine ⟨?_, h.runs, h.running_le, ?_⟩
  · have hin := h.inOrder
    rw [hw] at hin
    simpa only [List.append_assoc, List.singleton_append] using hin
  · rw [List.length_append, List.length_singleton]
    omega

theorem take (h : Orderly workers p) (hq : p.take workers = some q) : Orderly workers q := by
  obtain ⟨a, rest, hc, hr, rfl⟩ := take_eq_some_iff.mp hq
  refine ⟨?_, h.runs.append (List.Sublist.refl [a]), ?_, ?_⟩
  · have hin := h.inOrder
    rw [hc] at hin
    simpa only [List.append_assoc, List.cons_append, List.nil_append] using hin
  · rw [List.length_append, List.length_singleton]
    omega
  · have hle := h.called_le
    rw [hc, List.length_cons] at hle
    exact Nat.le_trans (Nat.le_succ _) hle

theorem release (h : Orderly workers p) (k : ℕ) : Orderly workers (p.release k) where
  inOrder := h.inOrder
  runs := (List.eraseIdx_sublist _ _).trans h.runs
  running_le := Nat.le_trans (List.eraseIdx_sublist ..).length_le h.running_le
  called_le := h.called_le

theorem started_sublist (h : Orderly workers p) : p.started.Sublist p.submitted :=
  ((List.sublist_append_left _ _).trans (List.sublist_append_left _ _)).trans h.inOrder

theorem called_sublist (h : Orderly workers p) : (p.started ++ p.called).Sublist p.submitted :=
  (List.sublist_append_left _ _).trans h.inOrder

theorem cancelWaiting (h : Orderly workers p) : Orderly workers p.cancelWaiting where
  inOrder := by
    rw [WorkerPool.cancelWaiting, List.append_nil]
    exact h.called_sublist
  runs := h.runs
  running_le := h.running_le
  called_le := h.called_le

theorem close (h : Orderly workers p) : Orderly workers p.close :=
  ⟨h.cancelWaiting.inOrder, h.runs, h.running_le, h.called_le⟩

theorem breakUp (h : Orderly workers p) : Orderly workers p.breakUp where
  inOrder := by
    rw [WorkerPool.breakUp, List.append_nil, List.append_nil]
    exact h.started_sublist
  runs := List.nil_sublist _
  running_le := Nat.zero_le _
  called_le := Nat.zero_le _

theorem started_nodup (h : Orderly workers p) (hn : p.submitted.Nodup) : p.started.Nodup :=
  hn.sublist h.started_sublist

end Orderly

end WorkerPool

end Lib
