import Mathlib.Data.List.Nodup
import Mathlib.Tactic

/-!
# Python dictionaries

A `dict` is the list of its items in insertion order with pairwise distinct
keys; assigning to a present key keeps its place. `lastValue` is the value a
list of assignments leaves at a key, the last one winning.
-/

namespace Lib

variable {κ ν : Type*} [DecidableEq κ]

/-! ### Items of a mapping -/

/-- The value at a key among the items. -/
def lookup (k : κ) : List (κ × ν) → Option ν
  | [] => none
  | (k', v) :: kvs => if k' = k then some v else lookup k kvs

/-- Assignment to a key: in place when present, else at the end. -/
def assign (k : κ) (v : ν) : List (κ × ν) → List (κ × ν)
  | [] => [(k, v)]
  | (k', v') :: kvs => if k' = k then (k, v) :: kvs else (k', v') :: assign k v kvs

/-- The value that a sequence of assignments leaves at a key. -/
def lastValue (k : κ) : List (κ × ν) → Option ν
  | [] => none
  | (k', v) :: kvs => (lastValue k kvs).or (if k' = k then some v else none)

theorem lookup_eq_none_iff {k : κ} {kvs : List (κ × ν)} :
    lookup k kvs = none ↔ k ∉ kvs.map Prod.fst := by
  induction kvs with
  | nil => simp [lookup]
  | cons kv kvs ih =>
    obtain ⟨k', v⟩ := kv
    simp only [lookup, List.map_cons, List.mem_cons, not_or]
    split_ifs with h
    · simp [h]
    · simp [ih, Ne.symm h]

theorem mem_of_lookup_eq_some {k : κ} {v : ν} {kvs : List (κ × ν)}
    (h : lookup k kvs = some v) : (k, v) ∈ kvs := by
  induction kvs with
  | nil => cases h
  | cons kv kvs ih =>
    obtain ⟨k', v'⟩ := kv
    simp only [lookup] at h
    split_ifs at h with hk
    · cases h
      exact hk ▸ List.mem_cons_self ..
    · exact List.mem_cons_of_mem _ (ih h)

theorem lookup_of_mem {k : κ} {v : ν} {kvs : List (κ × ν)}
    (hn : (kvs.map Prod.fst).Nodup) (h : (k, v) ∈ kvs) : lookup k kvs = some v := by
  induction kvs with
  | nil => cases h
  | cons kv kvs ih =>
    obtain ⟨k', v'⟩ := kv
    rw [List.map_cons, List.nodup_cons] at hn
    rcases List.mem_cons.mp h with heq | h
    · cases heq
      simp [lookup]
    · have hne : k' ≠ k := fun he => hn.1 (he ▸ List.mem_map.mpr ⟨(k, v), h, rfl⟩)
      simp [lookup, hne, ih hn.2 h]

theorem keys_assign (k : κ) (v : ν) (kvs : List (κ × ν)) :
    (assign k v kvs).map Prod.fst =
      if k ∈ kvs.map Prod.fst then kvs.map Prod.fst else kvs.map Prod.fst ++ [k] := by
  induction kvs with
  | nil => simp [assign]
  | cons kv kvs ih =>
    obtain ⟨k', v'⟩ := kv
    simp only [assign]
    split_ifs with h1 h2 h2
    · simp [h1]
    · exact absurd (by simp [h1]) h2
    · have hm : k ∈ kvs.map Prod.fst := by
        rcases List.mem_cons.mp h2 with he | hm
        · exact absurd he.symm h1
        · exact hm
      simp only [List.map_cons, ih, if_pos hm]
    · have hm : k ∉ kvs.map Prod.fst := fun hm => h2 (List.mem_cons_of_mem _ hm)
      simp only [List.map_cons, ih, if_neg hm, List.cons_append]

theorem lookup_assign (k k' : κ) (v : ν) (kvs : List (κ × ν)) :
    lookup k' (assign k v kvs) = if k = k' then some v else lookup k' kvs := by
  induction kvs with
  | nil => simp [assign, lookup]
  | cons kv kvs ih =>
    obtain ⟨k₀, v₀⟩ := kv
    simp only [assign]
    by_cases h0 : k₀ = k
    · subst h0
      by_cases h1 : k₀ = k' <;> simp [lookup, h1]
    · by_cases h1 : k₀ = k'
      · subst h1
        simp [lookup, h0, Ne.symm h0]
      · simp [lookup, h0, h1, ih]

theorem assign_of_lookup_eq_some {k : κ} {v : ν} {kvs : List (κ × ν)}
    (h : lookup k kvs = some v) : assign k v kvs = kvs := by
  induction kvs with
  | nil => cases h
  | cons kv kvs ih =>
    obtain ⟨k', v'⟩ := kv
    simp only [lookup] at h
    simp only [assign]
    split_ifs at h ⊢ with hk
    · cases h
      rw [hk]
    · rw [ih h]

theorem filter_assign (p : κ → Bool) (k : κ) (v : ν) (kvs : List (κ × ν)) :
    (assign k v kvs).filter (fun kv => p kv.1) =
      if p k then assign k v (kvs.filter fun kv => p kv.1)
      else kvs.filter fun kv => p kv.1 := by
  induction kvs with
  | nil => by_cases hp : p k = true <;> simp [assign, hp]
  | cons kv kvs ih =>
    obtain ⟨k', v'⟩ := kv
    simp only [assign]
    by_cases hk : k' = k
    · subst hk
      by_cases hp : p k' = true <;> simp [assign, hp]
    · by_cases hp : p k' = true <;> by_cases hq : p k = true <;> simp [assign, hk, hp, hq, ih]

theorem lastValue_append (k : κ) (kvs kvs' : List (κ × ν)) :
    lastValue k (kvs ++ kvs') = (lastValue k kvs').or (lastValue k kvs) := by
  induction kvs with
  | nil => simp [lastValue]
  | cons kv kvs ih => simp [lastValue, ih, Option.or_assoc]

theorem lastValue_eq_none_iff {k : κ} {kvs : List (κ × ν)} :
    lastValue k kvs = none ↔ k ∉ kvs.map Prod.fst := by
  induction kvs with
  | nil => simp [lastValue]
  | cons kv kvs ih =>
    obtain ⟨k', v⟩ := kv
    simp only [lastValue, Option.or_eq_none_iff, ih, List.map_cons, List.mem_cons, not_or]
    by_cases h : k' = k
    · simp [h]
    · simp [h, Ne.symm h]

theorem lastValue_of_not_mem {k : κ} {kvs : List (κ × ν)} (h : k ∉ kvs.map Prod.fst) :
    lastValue k kvs = none := lastValue_eq_none_iff.mpr h

theorem mem_of_lastValue_eq_some {k : κ} {v : ν} {kvs : List (κ × ν)}
    (h : lastValue k kvs = some v) : (k, v) ∈ kvs := by
  induction kvs with
  | nil => cases h
  | cons kv kvs ih =>
    obtain ⟨k', v'⟩ := kv
    simp only [lastValue, Option.or_eq_some_iff] at h
    rcases h with h | ⟨_, h⟩
    · exact List.mem_cons_of_mem _ (ih h)
    · split_ifs at h with hk
      cases h
      exact hk ▸ List.mem_cons_self ..

theorem lastValue_eq_of_forall {k : κ} {v : ν} {kvs : List (κ × ν)}
    (hmem : k ∈ kvs.map Prod.fst) (hall : ∀ w, (k, w) ∈ kvs → w = v) :
    lastValue k kvs = some v := by
  cases h : lastValue k kvs with
  | none => exact absurd hmem (lastValue_eq_none_iff.mp h)
  | some w => rw [hall w (mem_of_lastValue_eq_some h)]

theorem lastValue_of_mem {k : κ} {v : ν} {kvs : List (κ × ν)} (hn : (kvs.map Prod.fst).Nodup)
    (h : (k, v) ∈ kvs) : lastValue k kvs = some v := by
  refine lastValue_eq_of_forall (List.mem_map_of_mem h) fun w hw => ?_
  have hsame : some w = some v := by rw [← lookup_of_mem hn hw, lookup_of_mem hn h]
  exact Option.some.inj hsame

/-! ### Dictionaries -/

/-- A Python `dict`: items in insertion order, keys pairwise distinct. -/
structure Dict (κ ν : Type*) where
  items : List (κ × ν)
  nodup : (items.map Prod.fst).Nodup

namespace Dict

def empty : Dict κ ν := ⟨[], List.nodup_nil⟩

def get (d : Dict κ ν) (k : κ) : Option ν := lookup k d.items

def keys (d : Dict κ ν) : List κ := d.items.map Prod.fst

def set (d : Dict κ ν) (k : κ) (v : ν) : Dict κ ν :=
  ⟨assign k v d.items, by
    rw [keys_assign]
    split_ifs with h
    · exact d.nodup
    · exact List.nodup_append.mpr ⟨d.nodup, List.nodup_singleton k, by
        intro a ha b hb hab
        exact h ((List.mem_singleton.mp hb) ▸ hab ▸ ha)⟩⟩

def setdefault (d : Dict κ ν) (k : κ) (v : ν) : Dict κ ν :=
  if k ∈ d.keys then d else d.set k v

def ofAssignments (kvs : List (κ × ν)) : Dict κ ν :=
  kvs.foldl (fun d kv => d.set kv.1 kv.2) empty

@[simp] theorem get_empty (k : κ) : (empty : Dict κ ν).get k = none := rfl

@[simp] theorem get_set (d : Dict κ ν) (k k' : κ) (v : ν) :
    (d.set k v).get k' = if k = k' then some v else d.get k' :=
  lookup_assign k k' v d.items

theorem get_eq_none_iff {d : Dict κ ν} {k : κ} : d.get k = none ↔ k ∉ d.keys :=
  lookup_eq_none_iff

theorem mem_keys_iff {d : Dict κ ν} {k : κ} : k ∈ d.keys ↔ ∃ v, d.get k = some v := by
  rw [← Option.ne_none_iff_exists', ne_eq, get_eq_none_iff, not_not]

theorem get_eq_some_iff {d : Dict κ ν} {k : κ} {v : ν} : d.get k = some v ↔ (k, v) ∈ d.items :=
  ⟨mem_of_lookup_eq_some, lookup_of_mem d.nodup⟩

theorem get_foldl_set (kvs : List (κ × ν)) (d : Dict κ ν) (k : κ) :
    (kvs.foldl (fun d kv => d.set kv.1 kv.2) d).get k = (lastValue k kvs).or (d.get k) := by
  induction kvs generalizing d with
  | nil => simp [lastValue]
  | cons kv kvs ih =>
    rw [List.foldl_cons, ih, get_set, lastValue, Option.or_assoc]
    congr 1
    split_ifs <;> simp

theorem get_ofAssignments (kvs : List (κ × ν)) (k : κ) :
    (ofAssignments kvs).get k = lastValue k kvs := by
  simp [ofAssignments, get_foldl_set]

omit [DecidableEq κ] in
theorem ext {d d' : Dict κ ν} (h : d.items = d'.items) : d = d' := by
  cases d
  cases d'
  cases h
  rfl

theorem set_eq_self {d : Dict κ ν} {k : κ} {v : ν} (h : d.get k = some v) : d.set k v = d :=
  ext (assign_of_lookup_eq_some h)

/-- The items at the keys that `p` selects. -/
def restrict (p : κ → Bool) (d : Dict κ ν) : Dict κ ν :=
  ⟨d.items.filter fun kv => p kv.1, d.nodup.sublist (List.filter_sublist.map Prod.fst)⟩

theorem get_restrict {p : κ → Bool} {k : κ} (hk : p k = true) (d : Dict κ ν) :
    (d.restrict p).get k = d.get k := by
  refine Option.ext fun v => ?_
  rw [get_eq_some_iff, get_eq_some_iff, restrict, List.mem_filter]
  exact and_iff_left hk

theorem restrict_set (p : κ → Bool) (d : Dict κ ν) (k : κ) (v : ν) :
    (d.set k v).restrict p = if p k then (d.restrict p).set k v else d.restrict p := by
  apply ext
  have h := filter_assign p k v d.items
  by_cases hp : p k = true
  · rw [if_pos hp] at h ⊢
    exact h
  · rw [if_neg hp] at h ⊢
    exact h

theorem restrict_foldl_set (p : κ → Bool) (kvs : List (κ × ν)) (d : Dict κ ν) :
    (kvs.foldl (fun d kv => d.set kv.1 kv.2) d).restrict p =
      (kvs.filter fun kv => p kv.1).foldl (fun d kv => d.set kv.1 kv.2) (d.restrict p) := by
  induction kvs generalizing d with
  | nil => rfl
  | cons kv kvs ih =>
    rw [List.foldl_cons, ih, restrict_set]
    by_cases hp : p kv.1 = true <;> simp [hp]

end Dict
end Lib
