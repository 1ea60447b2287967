import HadcdAgent.Heartbeat.MediaSync

/-!
# The `.part` of a model file

What the tasks of `Agent._sync_media_models` (`agent/agent.py`) that download one file have
open: each writes through a handle of its own, and any of them may empty, rename or unlink
the `.part` that they share.
-/

namespace HadcdAgent.Heartbeat

open Lib Lib.PyStr

/-- The other file and its `.part` are at paths of their own. -/
structure Apart (file other : MediaFile) : Prop where
  dest : other.dest ≠ file.dest
  part : part other.dest ≠ file.dest
  ofPart : other.dest ≠ Heartbeat.part file.dest

theorem part_injective {dest dest' : Str} (h : part dest = part dest') : dest = dest' :=
  List.append_cancel_right h

theorem part_ne_self (dest : Str) : part dest ≠ dest := by
  intro h
  have hlen := congrArg List.length h
  simp [part] at hlen

theorem Apart.parts {file other : MediaFile} (h : Apart file other) :
    Heartbeat.part other.dest ≠ Heartbeat.part file.dest := fun hp => h.dest (part_injective hp)

/-! ### The files that the tasks have open -/

/-- `own` are the files that are or were at the two paths of `file`. -/
structure Kept (file : MediaFile) (body : List UInt8) (own : ℕ → Prop) (disk : ModelDisk) :
    Prop where
  bounded : ∀ i, own i → i < disk.next
  names : ∀ p i, disk.names p = some i → (own i ↔ p = file.dest ∨ p = part file.dest)
  dest : ∀ bytes, disk.read file.dest = some bytes → bytes = body

/-- What a task has written and what its file holds are beginnings of `body`; the `.part`,
if there is one, is that file. -/
structure Writer (file : MediaFile) (body : List UInt8) (disk : ModelDisk) (f : PartFile) :
    Prop where
  came : f.written <+: body
  data : disk.data f.handle <+: body
  reach : f.flushed.length ≤ (disk.data f.handle).length ∨
    f.flushed ≠ body ∧ ∀ b ∈ f.flushed, b = 0
  sole : ∀ i, disk.names (part file.dest) = some i →
    i = f.handle ∨ body = [] ∧ disk.data i = []

structure Fits (file : MediaFile) (body : List UInt8) (own : ℕ → Prop) (disk : ModelDisk)
    (t : Sync) : Prop where
  current : ∀ other, t.current = some other → other = file ∨ Apart file other
  writer : ∀ f, t.stream = some (file, f) → own f.handle ∧ Writer file body disk f
  closed : ∀ f, t.phase = .closed file f → f.flushed = body
  other : ∀ other f, t.stream = some (other, f) → other ≠ file →
    ¬ own f.handle ∧ f.handle < disk.next

/-- The files of `own` are left as they are, and none gets a name. -/
structure Elsewhere (file : MediaFile) (own : ℕ → Prop) (disk disk' : ModelDisk) : Prop where
  data : ∀ i, own i → disk'.data i = disk.data i
  dest : disk'.names file.dest = disk.names file.dest
  names : ∀ p i, disk'.names p = some i → own i ∨ p = file.dest ∨ p = part file.dest →
    disk.names p = some i
  next : disk.next ≤ disk'.next

section Files

variable {file other : MediaFile} {body : List UInt8} {own : ℕ → Prop} {disk disk' : ModelDisk}
  {t : Sync} {f g : PartFile} {out : List UInt8}

theorem Kept.own_dest (h : Kept file body own disk) {i : ℕ}
    (hi : disk.names file.dest = some i) : own i := (h.names _ i hi).mpr (Or.inl rfl)

theorem Kept.own_part (h : Kept file body own disk) {i : ℕ}
    (hi : disk.names (part file.dest) = some i) : own i := (h.names _ i hi).mpr (Or.inr rfl)

theorem Kept.elsewhere (h : Kept file body own disk) (he : Elsewhere file own disk disk') :
    Kept file body own disk' where
  bounded i hi := lt_of_lt_of_le (h.bounded i hi) he.next
  names p i hp := by
    constructor
    · intro hi
      exact (h.names p i (he.names p i hp (Or.inl hi))).mp hi
    · intro hpath
      exact (h.names p i (he.names p i hp (Or.inr hpath))).mpr hpath
  dest bytes hb := by
    obtain ⟨i, hi, rfl⟩ := Option.map_eq_some_iff.mp hb
    rw [he.dest] at hi
    apply h.dest
    rw [Disk.read, hi, Option.map_some, he.data i (h.own_dest hi)]

theorem Writer.elsewhere (h : Writer file body disk f) (hk : Kept file body own disk)
    (hown : own f.handle) (he : Elsewhere file own disk disk') : Writer file body disk' f where
  came := h.came
  data := by
    rw [he.data f.handle hown]
    exact h.data
  reach := by
    rw [he.data f.handle hown]
    exact h.reach
  sole i hi := by
    have hold := he.names _ i hi (Or.inr (Or.inr rfl))
    rw [he.data i (hk.own_part hold)]
    exact h.sole i hold

theorem Fits.elsewhere (h : Fits file body own disk t) (hk : Kept file body own disk)
    (he : Elsewhere file own disk disk') : Fits file body own disk' t where
  current := h.current
  writer f hstream := by
    obtain ⟨hown, hw⟩ := h.writer f hstream
    exact ⟨hown, hw.elsewhere hk hown he⟩
  closed := h.closed
  other other f hstream hne := by
    obtain ⟨hown, hlt⟩ := h.other other f hstream hne
    exact ⟨hown, lt_of_lt_of_le hlt he.next⟩

/-! ### Steps that leave the file alone -/

theorem elsewhere_refl (file : MediaFile) (own : ℕ → Prop) (disk : ModelDisk) :
    Elsewhere file own disk disk := ⟨fun _ _ => rfl, rfl, fun _ _ hp _ => hp, le_rfl⟩

theorem elsewhere_create (hk : Kept file body own disk) {p : Str} (hdest : p ≠ file.dest)
    (hpart : p ≠ part file.dest) : ¬ own (disk.handle p) ∧ Elsewhere file own disk (disk.create p) := by
  have hnot : ¬ own (disk.handle p) := by
    intro hown
    rw [Disk.handle] at hown
    cases hp : disk.names p with
    | none =>
      rw [hp] at hown
      exact absurd (hk.bounded _ hown) (lt_irrefl _)
    | some i =>
      rw [hp] at hown
      rcases (hk.names p i hp).mp hown with h | h
      · exact hdest h
      · exact hpart h
  refine ⟨hnot, ?_, Disk.names_create_of_ne hdest.symm, ?_, Nat.le_succ _⟩
  · intro i hi
    have hne : i ≠ disk.handle p := by
      rintro rfl
      exact hnot hi
    exact Disk.data_create_of_ne hne
  · intro q i hq hor
    by_cases hqp : q = p
    · subst hqp
      rw [Disk.names_create_self] at hq
      cases hq
      rcases hor with h | h | h
      · exact absurd h hnot
      · exact absurd h hdest
      · exact absurd h hpart
    · rwa [Disk.names_create_of_ne hqp] at hq

theorem next_emit (disk : ModelDisk) (f : PartFile) (out : List UInt8) :
    (f.emit 0 disk out).next = disk.next := by
  rw [BufferedFile.emit]
  split_ifs <;> rfl

theorem data_emit_of_ne {i : ℕ} (h : i ≠ f.handle) (disk : ModelDisk) (out : List UInt8) :
    (f.emit 0 disk out).data i = disk.data i := by
  rw [BufferedFile.emit]
  split_ifs
  · rfl
  · exact Disk.data_write_of_ne h ..

theorem elsewhere_emit (hnot : ¬ own f.handle) (out : List UInt8) :
    Elsewhere file own disk (f.emit 0 disk out) where
  data i hi := by
    have hne : i ≠ f.handle := by
      rintro rfl
      exact hnot hi
    exact data_emit_of_ne hne disk out
  dest := by rw [BufferedFile.names_emit]
  names _ _ hp _ := by rwa [BufferedFile.names_emit] at hp
  next := (next_emit disk f out).ge

theorem elsewhere_unlink {p : Str} (hdest : p ≠ file.dest) :
    Elsewhere file own disk (disk.unlink p) where
  data _ _ := rfl
  dest := Disk.names_unlink_of_ne hdest.symm
  names _ _ hq _ := (Disk.names_unlink_eq_some hq).2
  next := le_rfl

theorem elsewhere_rename (hk : Kept file body own disk) {p q : Str} (hp : p ≠ file.dest)
    (hp' : p ≠ part file.dest) (hq : q ≠ file.dest) (hq' : q ≠ part file.dest) :
    Elsewhere file own disk (disk.rename p q) where
  data _ _ := rfl
  dest := Disk.names_rename_of_ne hp.symm hq.symm
  names r i hr hor := by
    by_cases hrq : r = q
    · subst hrq
      rw [Disk.names_rename_target] at hr
      rcases hor with hi | h | h
      · rcases (hk.names p i hr).mp hi with h | h
        · exact absurd h hp
        · exact absurd h hp'
      · exact absurd h hq
      · exact absurd h hq'
    · by_cases hrp : r = p
      · subst hrp
        rw [Disk.names_rename_source hrq] at hr
        cases hr
      · rwa [Disk.names_rename_of_ne hrp hrq] at hr
  next := le_rfl

theorem elsewhere_replacePart (hk : Kept file body own disk) (h : Apart file other) :
    Elsewhere file own disk (replacePart disk other) := by
  rw [replacePart]
  split
  · exact elsewhere_rename hk h.part h.parts h.dest h.ofPart
  · exact elsewhere_refl file own disk

theorem elsewhere_dropPart (h : other = file ∨ Apart file other) (unlinked : Bool) :
    Elsewhere file own disk (dropPart disk other unlinked) := by
  rw [dropPart]
  split_ifs
  · refine elsewhere_unlink ?_
    rcases h with rfl | h
    · exact part_ne_self other.dest
    · exact h.part
  · exact elsewhere_refl file own disk

/-! ### Steps at the file -/

theorem Kept.create_part (h : Kept file body own disk) :
    Kept file body (fun i => own i ∨ i = disk.handle (part file.dest))
      (disk.create (part file.dest)) where
  bounded i hi := by
    rcases hi with hi | rfl
    · exact Nat.lt_succ_of_lt (h.bounded i hi)
    · exact disk.handle_lt _
  names p i hp := by
    by_cases hpart : p = part file.dest
    · subst hpart
      rw [Disk.names_create_self] at hp
      cases hp
      exact iff_of_true (Or.inr rfl) (Or.inr rfl)
    · rw [Disk.names_create_of_ne hpart] at hp
      have hne : i ≠ disk.handle (part file.dest) := by
        rintro rfl
        exact hpart (Disk.eq_of_names_eq_handle hp)
      rw [← h.names p i hp]
      exact or_iff_left hne
  dest bytes hb := by
    rw [Disk.read_create_of_ne (part_ne_self file.dest).symm] at hb
    exact h.dest bytes hb

/-- A `.part` that is opened harmlessly leaves the other writers where they can go on. -/
theorem Writer.create_part (h : Writer file body disk f)
    (hg : body ≠ [] → disk.names (part file.dest) = some f.handle ∧ f.flushed ≠ body ∧
      ∀ b ∈ f.flushed, b = 0) :
    Writer file body (disk.create (part file.dest)) f where
  came := h.came
  data := by
    by_cases hhandle : f.handle = disk.handle (part file.dest)
    · rw [hhandle, Disk.data_create_handle]
      exact List.nil_prefix
    · rw [Disk.data_create_of_ne hhandle]
      exact h.data
  reach := by
    by_cases hbody : body = []
    · subst hbody
      rw [(List.append_eq_nil_iff.mp (List.prefix_nil.mp h.came)).1]
      exact Or.inl (Nat.zero_le _)
    · exact Or.inr (hg hbody).2
  sole i hi := by
    rw [Disk.names_create_self] at hi
    cases hi
    by_cases hbody : body = []
    · exact Or.inr ⟨hbody, Disk.data_create_handle⟩
    · left
      rw [Disk.handle, (hg hbody).1]
      rfl

theorem writer_opened : Writer file body (disk.create (part file.dest))
    (.opened (disk.handle (part file.dest))) where
  came := List.nil_prefix
  data := by
    rw [BufferedFile.opened, Disk.data_create_handle]
    exact List.nil_prefix
  reach := Or.inl (Nat.zero_le _)
  sole i hi := by
    rw [Disk.names_create_self] at hi
    cases hi
    exact Or.inl rfl

theorem Fits.create_part (h : Fits file body own disk t) (hk : Kept file body own disk)
    (hg : ∀ f, t.stream = some (file, f) → body ≠ [] →
      disk.names (part file.dest) = some f.handle ∧ f.flushed ≠ body ∧ ∀ b ∈ f.flushed, b = 0) :
    Fits file body (fun i => own i ∨ i = disk.handle (part file.dest))
      (disk.create (part file.dest)) t where
  current := h.current
  writer f hstream := by
    obtain ⟨hown, hw⟩ := h.writer f hstream
    exact ⟨Or.inl hown, hw.create_part (hg f hstream)⟩
  closed := h.closed
  other other f hstream hne := by
    obtain ⟨hown, hlt⟩ := h.other other f hstream hne
    refine ⟨?_, Nat.lt_succ_of_lt hlt⟩
    rintro (hi | hi)
    · exact hown hi
    · rw [hi] at hown hlt
      rw [Disk.handle] at hown hlt
      cases hp : disk.names (part file.dest) with
      | none =>
        rw [hp] at hlt
        exact absurd hlt (lt_irrefl _)
      | some i =>
        rw [hp] at hown
        exact hown (hk.own_part hp)

theorem eq_of_prefix_of_length_le {l body : List UInt8} (h : l <+: body)
    (hle : body.length ≤ l.length) : l = body := h.eq_of_length (le_antisymm h.length_le hle)

/-- The bytes that go out next go where they belong. -/
theorem Writer.emit_spec (h : Writer file body disk f) (hout : f.flushed ++ out <+: body) :
    (f.emit 0 disk out).data f.handle <+: body ∧
      (disk.data f.handle).length ≤ ((f.emit 0 disk out).data f.handle).length ∧
      (out ≠ [] → (f.flushed ++ out).length ≤ ((f.emit 0 disk out).data f.handle).length) := by
  by_cases hnil : out = []
  · subst hnil
    rw [BufferedFile.emit_nil]
    exact ⟨h.data, le_rfl, fun hne => absurd rfl hne⟩
  · rw [BufferedFile.emit_of_ne hnil, Disk.data_write_self]
    have hspec := Disk.writeAt_prefix h.data hout fun hlt => by
      rcases h.reach with hle | ⟨-, hzero⟩
      · exact absurd hle (Nat.not_le_of_lt hlt)
      · exact hzero
    exact ⟨hspec.1, hspec.2.1, fun _ => hspec.2.2⟩

theorem Kept.emit (h : Kept file body own disk) (hw : Writer file body disk f)
    (hout : f.flushed ++ out <+: body) : Kept file body own (f.emit 0 disk out) where
  bounded i hi := by
    rw [next_emit]
    exact h.bounded i hi
  names p i hp := by
    rw [BufferedFile.names_emit] at hp
    exact h.names p i hp
  dest b hb := by
    obtain ⟨i, hi, rfl⟩ := Option.map_eq_some_iff.mp hb
    rw [BufferedFile.names_emit] at hi
    have hold : disk.data i = body := by
      apply h.dest
      rw [Disk.read, hi, Option.map_some]
    by_cases hhandle : i = f.handle
    · subst hhandle
      obtain ⟨hpre, hlen, -⟩ := hw.emit_spec hout
      rw [hold] at hlen
      exact eq_of_prefix_of_length_le hpre hlen
    · rw [data_emit_of_ne hhandle, hold]

theorem Writer.emit_other (h : Writer file body disk g) (hw : Writer file body disk f)
    (hout : f.flushed ++ out <+: body) : Writer file body (f.emit 0 disk out) g := by
  by_cases hnil : out = []
  · subst hnil
    exact h
  have hbody : body ≠ [] := by
    rintro rfl
    exact hnil (List.append_eq_nil_iff.mp (List.prefix_nil.mp hout)).2
  have hsole : ∀ i, (f.emit 0 disk out).names (part file.dest) = some i → i = g.handle := by
    intro i hi
    rw [BufferedFile.names_emit] at hi
    exact (h.sole i hi).resolve_right fun hempty => hbody hempty.1
  by_cases hhandle : g.handle = f.handle
  · obtain ⟨hpre, hlen, -⟩ := hw.emit_spec hout
    rw [← hhandle] at hpre hlen
    exact {
      came := h.came
      data := hpre
      reach := h.reach.imp_left fun hle => hle.trans hlen
      sole := fun i hi => Or.inl (hsole i hi) }
  · have hdata := data_emit_of_ne hhandle disk out
    exact {
      came := h.came
      data := hdata ▸ h.data
      reach := hdata ▸ h.reach
      sole := fun i hi => Or.inl (hsole i hi) }

/-- The file object behind its own write. -/
theorem Writer.emit_self (h : Writer file body disk f) {rest : List UInt8}
    (hcame : f.flushed ++ out ++ rest <+: body) :
    Writer file body (f.emit 0 disk out) ⟨f.handle, f.flushed ++ out, rest⟩ := by
  have hout : f.flushed ++ out <+: body := (List.prefix_append _ rest).trans hcame
  have hother := h.emit_other h hout
  refine {
    came := hcame
    data := hother.data
    reach := ?_
    sole := hother.sole }
  by_cases hnil : out = []
  · subst hnil
    rw [List.append_nil]
    exact h.reach
  · exact Or.inl ((h.emit_spec hout).2.2 hnil)

theorem Fits.emit (h : Fits file body own disk t) (hw : Writer file body disk f)
    (hout : f.flushed ++ out <+: body) : Fits file body own (f.emit 0 disk out) t where
  current := h.current
  writer g hstream := by
    obtain ⟨hown, hg⟩ := h.writer g hstream
    exact ⟨hown, hg.emit_other hw hout⟩
  closed := h.closed
  other other g hstream hne := by
    rw [next_emit]
    exact h.other other g hstream hne

/-- The `.part` that a task puts in place at the end of its stream is complete. -/
theorem Kept.replacePart (h : Kept file body own disk) (hw : Writer file body disk f)
    (hbody : f.flushed = body) : Kept file body own (replacePart disk file) := by
  have hdata : disk.data f.handle = body := by
    rcases hw.reach with hle | ⟨hne, -⟩
    · exact eq_of_prefix_of_length_le hw.data (hbody ▸ hle)
    · exact absurd hbody hne
  rw [Heartbeat.replacePart]
  split
  case h_2 => exact h
  case h_1 i hi =>
    refine ⟨h.bounded, fun p j hp => ?_, fun bytes hb => ?_⟩
    · by_cases hdest : p = file.dest
      · subst hdest
        rw [Disk.names_rename_target] at hp
        exact iff_of_true (h.own_part hp) (Or.inl rfl)
      · by_cases hpart : p = part file.dest
        · subst hpart
          rw [Disk.names_rename_source (part_ne_self file.dest)] at hp
          cases hp
        · rw [Disk.names_rename_of_ne hpart hdest] at hp
          exact h.names p j hp
    · rw [Disk.read_rename_target, Disk.read, hi, Option.map_some] at hb
      cases hb
      rcases hw.sole i hi with rfl | ⟨hnil, hempty⟩
      · exact hdata
      · rw [hnil, hempty]

theorem Fits.replacePart (h : Fits file body own disk t) :
    Fits file body own (replacePart disk file) t := by
  rw [Heartbeat.replacePart]
  split
  case h_2 => exact h
  case h_1 i hi =>
    refine ⟨h.current, fun f hstream => ?_, h.closed, h.other⟩
    obtain ⟨hown, hw⟩ := h.writer f hstream
    refine ⟨hown, hw.came, hw.data, hw.reach, fun j hj => ?_⟩
    rw [Disk.names_rename_source (part_ne_self file.dest)] at hj
    cases hj

end Files

end HadcdAgent.Heartbeat
