import Mathlib.Logic.Function.Basic
import Mathlib.Tactic

/-!
# Files, their names and the handles open on them

A name leads to a file by its number, and a handle keeps the number: what is
written through it goes to the file under whatever name that has by now. There are no
hard links.
-/

namespace Lib

structure Disk (π β : Type) where
  names : π → Option ℕ
  data : ℕ → List β
  next : ℕ
  bounded : ∀ {p i}, names p = some i → i < next
  unlinked : ∀ {p q i}, names p = some i → names q = some i → p = q

namespace Disk

variable {π β : Type}

def empty : Disk π β := ⟨fun _ => none, fun _ => [], 0, fun h => (nomatch h), fun h => (nomatch h)⟩

def read (d : Disk π β) (p : π) : Option (List β) := (d.names p).map d.data

/-- The file that opening `p` for writing gives a handle on. -/
def handle (d : Disk π β) (p : π) : ℕ := (d.names p).getD d.next

theorem eq_of_names_eq_handle {d : Disk π β} {p q : π} (h : d.names q = some (d.handle p)) :
    q = p := by
  rw [handle] at h
  cases hp : d.names p with
  | none =>
    rw [hp] at h
    exact absurd (d.bounded h) (lt_irrefl _)
  | some i =>
    rw [hp] at h
    exact d.unlinked h hp

theorem names_of_handle_lt {d : Disk π β} {p : π} (h : d.handle p < d.next) :
    d.names p = some (d.handle p) := by
  rw [handle] at h ⊢
  cases hp : d.names p with
  | none =>
    rw [hp] at h
    exact absurd h (lt_irrefl _)
  | some i => rfl

theorem handle_lt (d : Disk π β) (p : π) : d.handle p < d.next + 1 := by
  rw [handle]
  cases hp : d.names p with
  | none => exact Nat.lt_succ_self _
  | some i => exact Nat.lt_succ_of_lt (d.bounded hp)

/-- What a file holds after `bytes` have been written at the offset; a gap reads as
`zero`. -/
def writeAt (zero : β) (old : List β) (offset : ℕ) (bytes : List β) : List β :=
  old.take offset ++ List.replicate (offset - old.length) zero ++ bytes ++
    old.drop (offset + bytes.length)

/-- A write through a handle on file `i`. -/
def write (d : Disk π β) (zero : β) (i offset : ℕ) (bytes : List β) : Disk π β :=
  { d with data := Function.update d.data i (writeAt zero (d.data i) offset bytes) }

theorem writeAt_nil (zero : β) (offset : ℕ) (bytes : List β) :
    writeAt zero [] offset bytes = List.replicate offset zero ++ bytes := by
  simp [writeAt]

theorem writeAt_length (zero : β) (old bytes : List β) :
    writeAt zero old old.length bytes = old ++ bytes := by
  simp [writeAt]

/-- Bytes written in the place that they have in `body`: they lie within what the file
holds already, or the file ends with them. A hole in front of them must read right. -/
theorem writeAt_in_place {zero : β} {old received bytes body : List β} (hold : old <+: body)
    (hreceived : received ++ bytes <+: body)
    (hhole : old.length < received.length → ∀ b ∈ received, b = zero) :
    writeAt zero old received.length bytes =
      if (received ++ bytes).length ≤ old.length then old else received ++ bytes := by
  by_cases hlong : received.length ≤ old.length
  · have hnogap : received.length - old.length = 0 := Nat.sub_eq_zero_of_le hlong
    have hstart : old.take received.length = received := by
      have hpre : received <+: old :=
        List.prefix_of_prefix_length_le ((List.prefix_append _ _).trans hreceived) hold hlong
      exact (List.prefix_iff_eq_take.mp hpre).symm
    rw [writeAt, hnogap, hstart, List.replicate_zero, List.append_nil]
    split_ifs with hwithin
    · have hpre : received ++ bytes <+: old :=
        List.prefix_of_prefix_length_le hreceived hold hwithin
      obtain ⟨rest, rfl⟩ := hpre
      rw [← List.length_append, List.drop_left]
    · have hend : old.drop (received.length + bytes.length) = [] := by
        rw [List.length_append] at hwithin
        exact List.drop_eq_nil_of_le (Nat.le_of_not_le hwithin)
      rw [hend, List.append_nil]
  · have hlt : old.length < received.length := Nat.lt_of_not_le hlong
    have hpre : old <+: received :=
      List.prefix_of_prefix_length_le hold ((List.prefix_append _ _).trans hreceived) hlt.le
    obtain ⟨hole, rfl⟩ := hpre
    have hzero : hole = List.replicate hole.length zero :=
      List.eq_replicate_of_mem fun b hb => hhole hlt b (List.mem_append_right _ hb)
    have hgap : (old ++ hole).length - old.length = hole.length := by
      rw [List.length_append, Nat.add_sub_cancel_left]
    have hend : old.drop ((old ++ hole).length + bytes.length) = [] :=
      List.drop_eq_nil_of_le (hlt.le.trans (Nat.le_add_right ..))
    have hbeyond : ¬ (old ++ hole ++ bytes).length ≤ old.length := by
      rw [List.length_append]
      omega
    rw [if_neg hbeyond, writeAt, List.take_of_length_le hlt.le, hgap, ← hzero, hend,
      List.append_nil]

/-- Such a write keeps the file a beginning of `body`, and takes nothing from it. -/
theorem writeAt_prefix {zero : β} {old received bytes body : List β} (hold : old <+: body)
    (hreceived : received ++ bytes <+: body)
    (hhole : old.length < received.length → ∀ b ∈ received, b = zero) :
    writeAt zero old received.length bytes <+: body ∧
      old.length ≤ (writeAt zero old received.length bytes).length ∧
      (received ++ bytes).length ≤ (writeAt zero old received.length bytes).length := by
  rw [writeAt_in_place hold hreceived hhole]
  split_ifs with hwithin
  · exact ⟨hold, le_rfl, hwithin⟩
  · exact ⟨hreceived, Nat.le_of_not_le hwithin, le_rfl⟩

theorem writeAt_writeAt (zero : β) (old : List β) (offset : ℕ) (bytes more : List β) :
    writeAt zero (writeAt zero old offset bytes) (offset + bytes.length) more =
      writeAt zero old offset (bytes ++ more) := by
  have hlen : (old.take offset ++ List.replicate (offset - old.length) zero ++ bytes).length =
      offset + bytes.length := by
    simp only [List.length_append, List.length_take, List.length_replicate]
    omega
  have htake : (writeAt zero old offset bytes).take (offset + bytes.length) =
      old.take offset ++ List.replicate (offset - old.length) zero ++ bytes := List.take_left' hlen
  have hgap : offset + bytes.length - (writeAt zero old offset bytes).length = 0 := by
    rw [writeAt, List.length_append, hlen]
    omega
  have hdrop : (writeAt zero old offset bytes).drop (offset + bytes.length + more.length) =
      old.drop (offset + (bytes ++ more).length) := by
    rw [← List.drop_drop, writeAt, List.drop_left' hlen, List.drop_drop, List.length_append,
      Nat.add_assoc]
  rw [writeAt, htake, hgap, hdrop, writeAt, List.replicate_zero, List.append_nil,
    List.append_assoc _ bytes more]

/-- A write that goes on where the last one ended. -/
theorem write_write (d : Disk π β) (zero : β) (i offset : ℕ) (bytes more : List β) :
    (d.write zero i offset bytes).write zero i (offset + bytes.length) more =
      d.write zero i offset (bytes ++ more) := by
  simp only [write, Function.update_self, Function.update_idem, writeAt_writeAt]

theorem data_write_self (d : Disk π β) (zero : β) (i offset : ℕ) (bytes : List β) :
    (d.write zero i offset bytes).data i = writeAt zero (d.data i) offset bytes :=
  Function.update_self ..

theorem data_write_of_ne {d : Disk π β} {i j : ℕ} (h : j ≠ i) (zero : β) (offset : ℕ)
    (bytes : List β) : (d.write zero i offset bytes).data j = d.data j :=
  Function.update_of_ne h ..

theorem read_write_of_ne {d : Disk π β} {p q : π} {i : ℕ} (hp : d.names p = some i) (h : q ≠ p)
    (zero : β) (offset : ℕ) (bytes : List β) : (d.write zero i offset bytes).read q = d.read q := by
  rw [read, read]
  change Option.map (Function.update d.data i _) (d.names q) = _
  cases hq : d.names q with
  | none => rfl
  | some j =>
    have hj : j ≠ i := fun hj => h (d.unlinked (hj ▸ hq) hp)
    rw [Option.map_some, Option.map_some, Function.update_of_ne hj]

variable [DecidableEq π]

theorem bounded_update {names : π → Option ℕ} {p : π} {file : Option ℕ} {next : ℕ}
    (h : ∀ {q i}, names q = some i → i < next) (hfile : ∀ i, file = some i → i < next) {q : π}
    {i : ℕ} (hq : Function.update names p file q = some i) : i < next := by
  by_cases hqp : q = p
  · rw [hqp, Function.update_self] at hq
    exact hfile i hq
  · rw [Function.update_of_ne hqp] at hq
    exact h hq

theorem unlinked_update {names : π → Option ℕ} {p : π} {file : Option ℕ}
    (h : ∀ {q r i}, names q = some i → names r = some i → q = r)
    (hfile : ∀ q i, q ≠ p → names q = some i → file ≠ some i) {q r : π} {i : ℕ}
    (hq : Function.update names p file q = some i) (hr : Function.update names p file r = some i) :
    q = r := by
  by_cases hqp : q = p <;> by_cases hrp : r = p
  · rw [hqp, hrp]
  · rw [hqp, Function.update_self] at hq
    rw [Function.update_of_ne hrp] at hr
    exact absurd hq (hfile r i hrp hr)
  · rw [hrp, Function.update_self] at hr
    rw [Function.update_of_ne hqp] at hq
    exact absurd hr (hfile q i hqp hq)
  · rw [Function.update_of_ne hqp] at hq
    rw [Function.update_of_ne hrp] at hr
    exact h hq hr

/-- `open(p, "wb")`: the file there is truncated, or a new one made. -/
def create (d : Disk π β) (p : π) : Disk π β where
  names := Function.update d.names p (some (d.handle p))
  data := Function.update d.data (d.handle p) []
  next := d.next + 1
  bounded := bounded_update (fun h => Nat.lt_succ_of_lt (d.bounded h)) fun i h => by
    cases h
    exact d.handle_lt p
  unlinked := unlinked_update d.unlinked fun q i hne hq h => by
    cases h
    exact hne (eq_of_names_eq_handle hq)

def unlink (d : Disk π β) (p : π) : Disk π β where
  names := Function.update d.names p none
  data := d.data
  next := d.next
  bounded := bounded_update d.bounded (by intro i h; cases h)
  unlinked := unlinked_update d.unlinked (by intro q i _ _ h; cases h)

theorem names_unlink_eq_some {d : Disk π β} {p q : π} {i : ℕ}
    (h : (d.unlink p).names q = some i) : q ≠ p ∧ d.names q = some i := by
  change Function.update d.names p none q = some i at h
  by_cases hqp : q = p
  · rw [hqp, Function.update_self] at h
    cases h
  · rw [Function.update_of_ne hqp] at h
    exact ⟨hqp, h⟩

/-- `os.replace(p, q)`, of a file at `p`. -/
def rename (d : Disk π β) (p q : π) : Disk π β where
  names := Function.update (d.unlink p).names q (d.names p)
  data := d.data
  next := d.next
  bounded := bounded_update (d.unlink p).bounded fun _ h => d.bounded h
  unlinked := unlinked_update (d.unlink p).unlinked fun r i _ hr hp => by
    obtain ⟨hrp, hr⟩ := names_unlink_eq_some hr
    exact hrp (d.unlinked hr hp)

/-! ### What is read afterwards -/

variable {d : Disk π β} {p q r : π}

theorem names_create_self : (d.create p).names p = some (d.handle p) := Function.update_self ..

theorem data_create_handle : (d.create p).data (d.handle p) = [] := Function.update_self ..

theorem data_create_of_ne {i : ℕ} (h : i ≠ d.handle p) : (d.create p).data i = d.data i :=
  Function.update_of_ne h ..

theorem names_create_of_ne (h : q ≠ p) : (d.create p).names q = d.names q :=
  Function.update_of_ne h ..

theorem names_unlink_self : (d.unlink p).names p = none := Function.update_self ..

theorem names_unlink_of_ne (h : q ≠ p) : (d.unlink p).names q = d.names q :=
  Function.update_of_ne h ..

theorem names_rename_source (h : p ≠ q) : (d.rename p q).names p = none :=
  (Function.update_of_ne h ..).trans names_unlink_self

theorem names_rename_target : (d.rename p q).names q = d.names p := Function.update_self ..

theorem names_rename_of_ne (hp : r ≠ p) (hq : r ≠ q) : (d.rename p q).names r = d.names r :=
  (Function.update_of_ne hq ..).trans (names_unlink_of_ne hp)

theorem read_create_of_ne (h : q ≠ p) : (d.create p).read q = d.read q := by
  rw [read, read]
  change Option.map (Function.update d.data (d.handle p) [])
    (Function.update d.names p (some (d.handle p)) q) = _
  rw [Function.update_of_ne h]
  cases hq : d.names q with
  | none => rfl
  | some i =>
    have hi : i ≠ d.handle p := fun hi => h (eq_of_names_eq_handle (hi ▸ hq))
    rw [Option.map_some, Option.map_some, Function.update_of_ne hi]

theorem read_unlink_self : (d.unlink p).read p = none := by
  rw [read]
  change Option.map d.data (Function.update d.names p none p) = _
  rw [Function.update_self, Option.map_none]

theorem read_unlink_of_ne (h : q ≠ p) : (d.unlink p).read q = d.read q := by
  rw [read, read]
  change Option.map d.data (Function.update d.names p none q) = _
  rw [Function.update_of_ne h]

theorem read_rename_target : (d.rename p q).read q = d.read p := by
  rw [read, read]
  change Option.map d.data (Function.update (d.unlink p).names q (d.names p) q) = _
  rw [Function.update_self]

theorem read_rename_of_ne (hp : r ≠ p) (hq : r ≠ q) : (d.rename p q).read r = d.read r := by
  rw [read, read]
  change Option.map d.data (Function.update (Function.update d.names p none) q (d.names p) r) = _
  rw [Function.update_of_ne hq, Function.update_of_ne hp]

end Disk
end Lib
