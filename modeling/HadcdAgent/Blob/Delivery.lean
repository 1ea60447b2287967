import HadcdAgent.Blob.Staging

/-!
# From the blob specs to the container's mounts

The host paths that `_run_assignment` declares, the files that `download_all` writes
and the `volumes` that the container handler passes to Docker, compared spec by spec.
-/

namespace HadcdAgent.Blob

open Lib Container

def inputDir (tmpDir : PurePath) : PurePath := tmpDir.join "input"

def declaredHost (tmpDir : PurePath) (spec : BlobSpec) : Str :=
  hostPath (inputDir tmpDir) (normalised spec)

def declaredPath (spec : BlobSpec) : Json := containerPath (normalised spec)

def downloadedTo (tmpDir : PurePath) (spec : BlobSpec) : Str :=
  (destination (inputDir tmpDir) (normalised spec)).str

/-- Some entry of `volumes` mounts read-only at the spec's container path the file that
`download_all` returned for it; the file lies in the input directory and holds the
spec's bytes. -/
def Delivered (host : Host) (tmpDir : PurePath) (files : Files) (volumes : Dict Str Mount)
    (s : BlobSpec × Answer) (path : PurePath) : Prop :=
  ∃ source mount, volumes.get source = some mount ∧ mount.mode = "ro" ∧
    declaredPath s.1 = .str mount.bind ∧ host.realpath source = host.realpath path.str ∧
    inside host (inputDir tmpDir) source = true ∧
    s.2 = .served s.2.body ∧ files.get (host.realpath source) = some s.2.body

/-- No two specs meet: the two ways of deriving a spec's path agree, the declared host
paths are distinct from each other and from the output directory's, and specs that
are written to one file have the same bytes. -/
structure Apart (host : Host) (tmpDir : PurePath) (args : List (Str × Json))
    (inputBlobs : List (BlobSpec × Answer)) : Prop where
  samePath : ∀ s ∈ inputBlobs,
    host.realpath (declaredHost tmpDir s.1) = host.realpath (downloadedTo tmpDir s.1)
  ownMount : (inputBlobs.map fun s => declaredHost tmpDir s.1).Nodup
  notOutput : ∀ s ∈ inputBlobs, outputDir tmpDir args ≠ .str (declaredHost tmpDir s.1)
  sameBytes : ∀ s ∈ inputBlobs, ∀ t ∈ inputBlobs,
    host.realpath (downloadedTo tmpDir s.1) = host.realpath (downloadedTo tmpDir t.1) →
      s.2.body = t.2.body

/-- The payload's own sources are not in the directory that `mkdtemp` has just made. -/
def Fresh (host : Host) (tmpDir : PurePath) (args : List (Str × Json)) : Prop :=
  ∀ v, .obj v ∈ (Json.get args "volumes").entries → ∀ source,
    Json.get v "host_path" = .str source → inside host (inputDir tmpDir) source = false

/-! ### The volumes -/

def bindOf (spec : BlobSpec) : Str :=
  match containerPath spec with
  | .str s => s
  | _ => []

def mountOf (baseDir : PurePath) (spec : BlobSpec) : Str × Mount :=
  (hostPath baseDir spec, ⟨bindOf spec, "ro"⟩)

theorem checkVolume_volumeOf {host : Host} {i : ℕ} {baseDir : PurePath} {spec : BlobSpec}
    {entry : Str × Mount} (h : checkVolume host i (volumeOf baseDir spec) = .ok entry) :
    containerPath spec = .str (bindOf spec) ∧ entry = mountOf baseDir spec := by
  obtain ⟨v, hv, hh, hc, hm, -⟩ := checkVolume_eq_ok h
  cases hv
  obtain ⟨source, bind, mode⟩ := entry
  have hbind : containerPath spec = .str bind := hc
  have hsource : hostPath baseDir spec = source := Json.str.inj hh
  have hmode : ("ro" : Str) = mode := Except.ok.inj hm
  rw [mountOf, bindOf, hbind, hsource, hmode]
  exact ⟨rfl, rfl⟩

theorem addVolumes_volumeOf {host : Host} {i : ℕ} {baseDir : PurePath} {specs : List BlobSpec}
    {d d' : Dict Str Mount} (h : addVolumes host i (specs.map (volumeOf baseDir)) d = .ok d') :
    (∀ s ∈ specs, containerPath s = .str (bindOf s)) ∧
    d' = (specs.map (mountOf baseDir)).foldl (fun d kv => d.set kv.1 kv.2) d := by
  induction specs generalizing i d with
  | nil =>
    cases h
    exact ⟨fun _ hs => (nomatch hs), rfl⟩
  | cons s specs ih =>
    obtain ⟨entry, he, h⟩ := bind_eq_ok h
    obtain ⟨hc, rfl⟩ := checkVolume_volumeOf he
    obtain ⟨hall, rfl⟩ := ih h
    exact ⟨List.forall_mem_cons.mpr ⟨hc, hall⟩, rfl⟩

theorem get_addOutputDir_of_ne {host : Host} {dir : Json} {d d' : Dict Str Mount}
    (h : addOutputDir host dir d = .ok d') {source : Str} (hne : dir ≠ .str source) :
    d'.get source = d.get source := by
  cases dir with
  | null => cases h; rfl
  | str t =>
    obtain ⟨_, _, h⟩ := bind_eq_ok h
    cases h
    rw [Dict.get_set, if_neg fun ht => hne (congrArg Json.str ht)]
  | _ => cases h

theorem get_addOutputDir_self {host : Host} {source : Str} {d d' : Dict Str Mount}
    (h : addOutputDir host (.str source) d = .ok d') :
    d'.get source = some ⟨"/output", "rw"⟩ := by
  obtain ⟨_, _, h⟩ := bind_eq_ok h
  cases h
  rw [Dict.get_set, if_pos rfl]

theorem stage_eq_ok {host : Host} {tmpDir : PurePath} {args : List (Str × Json)}
    {inputBlobs : List (BlobSpec × Answer)} {staged : Staged} (hne : inputBlobs ≠ [])
    (h : stage host tmpDir args inputBlobs = .ok staged) :
    downloadAll host (inputDir tmpDir) (inputBlobs.map fun s => (normalised s.1, s.2))
      Dict.empty = .ok (staged.paths, staged.files) ∧
    ∃ existing, listOf ((Json.get args "volumes").or (.arr [])) = some existing ∧
      Json.get staged.args "volumes" = .arr (existing ++
        (inputBlobs.map fun s => normalised s.1).map (volumeOf (inputDir tmpDir))) ∧
      Json.get staged.args "output_dir" = outputDir tmpDir args := by
  obtain ⟨inputs, hin, h⟩ := bind_eq_ok h
  have hne' : (inputBlobs.map fun s => (normalised s.1, s.2)) ≠ [] := by simpa using hne
  simp only [stageInputs, if_neg hne', show tmpDir.join "input" = inputDir tmpDir from rfl] at hin
  cases hd : downloadAll host (inputDir tmpDir)
      (inputBlobs.map fun s => (normalised s.1, s.2)) Dict.empty with
  | error e => rw [hd] at hin; cases hin
  | ok r =>
    obtain ⟨paths, files⟩ := r
    rw [hd] at hin
    cases hl : listOf ((Json.get args "volumes").or (.arr [])) with
    | none => simp only [hl] at hin; cases hin
    | some existing =>
      simp only [hl, Except.ok.injEq] at hin
      subst hin
      have hmap : ((inputBlobs.map fun s => (normalised s.1, s.2)).map fun s =>
          volumeOf (inputDir tmpDir) s.1) =
          (inputBlobs.map fun s => normalised s.1).map (volumeOf (inputDir tmpDir)) := by
        rw [List.map_map, List.map_map]
        rfl
      rw [hmap] at h
      by_cases ho : (Json.get args "output_paths").truthy = true
      · rw [if_pos ho] at h
        cases h
        refine ⟨rfl, existing, rfl, ?_, ?_⟩
        · rw [Json.get_assign, if_neg (by decide), Json.get_assign, if_pos rfl]
        · rw [Json.get_assign, if_pos rfl, outputDir, if_pos ho]
      · rw [if_neg ho] at h
        cases h
        refine ⟨rfl, existing, rfl, ?_, ?_⟩
        · rw [Json.get_assign, if_pos rfl]
        · rw [Json.get_assign, if_neg (by decide), outputDir, if_neg ho]

theorem paths_of_stage_nil {host : Host} {tmpDir : PurePath} {args : List (Str × Json)}
    {staged : Staged} (h : stage host tmpDir args [] = .ok staged) : staged.paths = [] := by
  obtain ⟨inputs, hin, h⟩ := bind_eq_ok h
  cases hin
  split_ifs at h <;> cases h <;> rfl

theorem mem_entries_of_listOf {value v : Json} {existing : List Json}
    (h : listOf (value.or (.arr [])) = some existing) {kvs : List (Str × Json)}
    (hv : v ∈ existing) (ho : v = .obj kvs) : v ∈ value.entries := by
  subst ho
  by_cases ht : value.truthy = true
  · rw [Json.or_of_truthy ht] at h
    cases value with
    | arr xs => cases h; exact hv
    | obj kvs => cases h; simp at hv
    | str s => cases h; simp at hv
    | _ => cases h
  · rw [Json.or_of_not_truthy (Bool.eq_false_iff.mpr ht)] at h
    cases h
    exact (nomatch hv)

/-- The entries of the volumes that Docker gets: the output directory's wins over the
specs', and the last spec with a host path over the earlier ones and the payload. -/
structure Volumes (host : Host) (tmpDir : PurePath) (args : List (Str × Json))
    (inputBlobs : List (BlobSpec × Answer)) (volumes own : Dict Str Mount) : Prop where
  bind : ∀ s ∈ inputBlobs, declaredPath s.1 = .str (bindOf (normalised s.1))
  payload : ∀ source mount, own.get source = some mount →
    ∃ v, .obj v ∈ (Json.get args "volumes").entries ∧ Json.get v "host_path" = .str source
  output : ∀ source, outputDir tmpDir args = .str source →
    volumes.get source = some ⟨"/output", "rw"⟩
  rest : ∀ source, outputDir tmpDir args ≠ .str source → volumes.get source =
    (lastValue source (inputBlobs.map fun s =>
      mountOf (inputDir tmpDir) (normalised s.1))).or (own.get source)

theorem volumes_of_stage {host : Host} {tmpDir : PurePath} {args : List (Str × Json)}
    {inputBlobs : List (BlobSpec × Answer)} {staged : Staged} {volumes : Dict Str Mount}
    (hne : inputBlobs ≠ []) (hs : stage host tmpDir args inputBlobs = .ok staged)
    (hv : volumesDict host staged.args = .ok volumes) :
    ∃ own, Volumes host tmpDir args inputBlobs volumes own := by
  obtain ⟨-, existing, hl, hvol, hout⟩ := stage_eq_ok hne hs
  obtain ⟨d, hd, hv⟩ := bind_eq_ok hv
  rw [hout] at hv
  have htruthy : (Json.arr (existing ++ (inputBlobs.map fun s => normalised s.1).map
      (volumeOf (inputDir tmpDir)))).truthy = true := by
    rw [Json.truthy_arr]
    simp [hne]
  rw [hvol, Json.or_of_truthy htruthy] at hd
  obtain ⟨own, hown, hspecs⟩ := addVolumes_append hd
  obtain ⟨hbind, rfl⟩ := addVolumes_volumeOf hspecs
  refine ⟨own, ?_, ?_, ?_, ?_⟩
  · intro s hs
    exact hbind _ (List.mem_map_of_mem hs)
  · intro source mount hget
    rcases mem_of_addVolumes hown hget with hn | ⟨v, hv, hh⟩
    · cases hn
    · exact ⟨v, mem_entries_of_listOf hl hv rfl, hh⟩
  · intro source ho
    rw [ho] at hv
    exact get_addOutputDir_self hv
  · intro source ho
    rw [get_addOutputDir_of_ne hv ho, Dict.get_foldl_set, List.map_map]
    rfl

/-! ### Delivery -/

/-- What the downloads leave: a file inside the directory for each spec, with the
bytes of the last spec that was written to it. -/
structure Downloads (host : Host) (tmpDir : PurePath) (inputBlobs : List (BlobSpec × Answer))
    (staged : Staged) : Prop where
  paths : staged.paths =
    inputBlobs.map fun s => destination (inputDir tmpDir) (normalised s.1)
  inside : ∀ s ∈ inputBlobs, inside host (inputDir tmpDir) (downloadedTo tmpDir s.1) = true
  served : ∀ s ∈ inputBlobs, s.2 = .served s.2.body
  files : ∀ path, staged.files.get path = lastValue path (inputBlobs.map fun s =>
    (host.realpath (downloadedTo tmpDir s.1), s.2.body))

theorem downloads_of_stage {host : Host} {tmpDir : PurePath} {args : List (Str × Json)}
    {inputBlobs : List (BlobSpec × Answer)} {staged : Staged} (hne : inputBlobs ≠ [])
    (hs : stage host tmpDir args inputBlobs = .ok staged) :
    Downloads host tmpDir inputBlobs staged := by
  obtain ⟨hp, hall, hf⟩ := downloadAll_eq_ok (stage_eq_ok hne hs).1
  rw [List.forall_mem_map] at hall
  refine ⟨?_, fun s hs => (hall s hs).1, fun s hs => (hall s hs).2, ?_⟩
  · simp only [hp, List.map_map, Function.comp_def]
  · intro path
    rw [hf, Dict.get_foldl_set, Dict.get_empty, Option.or_none, List.map_map]
    rfl

section

variable {host : Host} {tmpDir : PurePath} {args : List (Str × Json)}
  {inputBlobs : List (BlobSpec × Answer)} {staged : Staged} {volumes own : Dict Str Mount}

theorem Downloads.get {s : BlobSpec × Answer} (hd : Downloads host tmpDir inputBlobs staged)
    (ha : Apart host tmpDir args inputBlobs) (hs : s ∈ inputBlobs) :
    staged.files.get (host.realpath (downloadedTo tmpDir s.1)) = some s.2.body := by
  rw [hd.files]
  refine lastValue_eq_of_forall ?_ fun bytes hw => ?_
  · rw [List.map_map]
    exact List.mem_map.mpr ⟨s, hs, rfl⟩
  · obtain ⟨t, ht, he⟩ := List.mem_map.mp hw
    obtain ⟨hpath, rfl⟩ := Prod.mk.injEq .. ▸ he
    exact ha.sameBytes t ht s hs hpath

theorem Volumes.get {s : BlobSpec × Answer} (hv : Volumes host tmpDir args inputBlobs volumes own)
    (ha : Apart host tmpDir args inputBlobs) (hs : s ∈ inputBlobs) :
    volumes.get (declaredHost tmpDir s.1) = some ⟨bindOf (normalised s.1), "ro"⟩ := by
  have hlast : lastValue (declaredHost tmpDir s.1) (inputBlobs.map fun s =>
      mountOf (inputDir tmpDir) (normalised s.1)) = some ⟨bindOf (normalised s.1), "ro"⟩ := by
    refine lastValue_of_mem ?_ (List.mem_map_of_mem (f := fun s : BlobSpec × Answer =>
      mountOf (inputDir tmpDir) (normalised s.1)) hs)
    rw [List.map_map]
    exact ha.ownMount
  rw [hv.rest _ (ha.notOutput s hs), hlast]
  rfl

theorem delivered_of_apart (hv : Volumes host tmpDir args inputBlobs volumes own)
    (hd : Downloads host tmpDir inputBlobs staged) (ha : Apart host tmpDir args inputBlobs) :
    ∀ s ∈ inputBlobs, Delivered host tmpDir staged.files volumes s
      (destination (inputDir tmpDir) (normalised s.1)) := by
  intro s hs
  have hsame := ha.samePath s hs
  refine ⟨declaredHost tmpDir s.1, ⟨bindOf (normalised s.1), "ro"⟩, hv.get ha hs, rfl,
    hv.bind s hs, hsame, ?_, hd.served s hs, ?_⟩
  · rw [inside_congr hsame]
    exact hd.inside s hs
  · rw [hsame]
    exact hd.get ha hs

/-- A delivered spec is mounted by its own entry, not by another spec's, the payload's
or the output directory's. -/
theorem own_of_delivered (hv : Volumes host tmpDir args inputBlobs volumes own)
    (hpaths : (inputBlobs.map fun s => declaredPath s.1).Nodup) (hf : Fresh host tmpDir args)
    {s : BlobSpec × Answer} (hs : s ∈ inputBlobs) {path : PurePath}
    (h : Delivered host tmpDir staged.files volumes s path) :
    outputDir tmpDir args ≠ .str (declaredHost tmpDir s.1) ∧
    volumes.get (declaredHost tmpDir s.1) = some ⟨bindOf (normalised s.1), "ro"⟩ ∧
    host.realpath (declaredHost tmpDir s.1) = host.realpath path.str := by
  obtain ⟨source, mount, hget, hmode, hbind, hreal, hin, -⟩ := h
  have hout : outputDir tmpDir args ≠ .str source := by
    intro ho
    rw [hv.output source ho] at hget
    cases hget
    exact absurd hmode (by decide)
  have hget' := hget
  rw [hv.rest source hout, Option.or_eq_some_iff] at hget'
  rcases hget' with hlast | ⟨-, hown⟩
  · obtain ⟨t, ht, he⟩ := List.mem_map.mp (mem_of_lastValue_eq_some hlast)
    cases he
    have hst : s = t := List.inj_on_of_nodup_map hpaths hs ht (hbind.trans (hv.bind t ht).symm)
    subst hst
    exact ⟨hout, hget, hreal⟩
  · obtain ⟨v, hmem, hh⟩ := hv.payload source mount hown
    rw [hf v hmem source hh] at hin
    cases hin

theorem apart_of_delivered (hv : Volumes host tmpDir args inputBlobs volumes own)
    (hpaths : (inputBlobs.map fun s => declaredPath s.1).Nodup) (hf : Fresh host tmpDir args)
    (h : ∀ s ∈ inputBlobs, Delivered host tmpDir staged.files volumes s
      (destination (inputDir tmpDir) (normalised s.1))) : Apart host tmpDir args inputBlobs where
  samePath s hs := (own_of_delivered hv hpaths hf hs (h s hs)).2.2
  notOutput s hs := (own_of_delivered hv hpaths hf hs (h s hs)).1
  ownMount := by
    refine List.Nodup.map_on (fun s hs t ht hst => ?_) (List.Nodup.of_map _ hpaths)
    have hms := (own_of_delivered hv hpaths hf hs (h s hs)).2.1
    have hmt := (own_of_delivered hv hpaths hf ht (h t ht)).2.1
    rw [hst, hmt] at hms
    have hbind : bindOf (normalised t.1) = bindOf (normalised s.1) :=
      congrArg Mount.bind (Option.some.inj hms)
    refine List.inj_on_of_nodup_map hpaths hs ht ?_
    rw [hv.bind s hs, hv.bind t ht, hbind]
  sameBytes s hs t ht hst := by
    obtain ⟨source, _, _, _, _, hreal, _, _, hfile⟩ := h s hs
    obtain ⟨source', _, _, _, _, hreal', _, _, hfile'⟩ := h t ht
    rw [hreal] at hfile
    rw [hreal', show host.realpath (destination (inputDir tmpDir) (normalised t.1)).str =
      host.realpath (destination (inputDir tmpDir) (normalised s.1)).str from hst.symm] at hfile'
    exact Option.some.inj (hfile.symm.trans hfile')

end

/-- When all downloads succeed and the handler accepts the volumes, every spec is
delivered if no two specs meet; and only then, with declared container paths that are
distinct and a payload that does not name the new directory. -/
theorem delivered_iff_apart {host : Host} {tmpDir : PurePath} {args : List (Str × Json)}
    {inputBlobs : List (BlobSpec × Answer)} {staged : Staged} {volumes : Dict Str Mount}
    (hs : stage host tmpDir args inputBlobs = .ok staged)
    (hv : volumesDict host staged.args = .ok volumes)
    (hpaths : (inputBlobs.map fun s => declaredPath s.1).Nodup) :
    (Apart host tmpDir args inputBlobs → List.Forall₂
      (Delivered host tmpDir staged.files volumes) inputBlobs staged.paths) ∧
    (Fresh host tmpDir args → List.Forall₂
      (Delivered host tmpDir staged.files volumes) inputBlobs staged.paths →
        Apart host tmpDir args inputBlobs) := by
  by_cases hne : inputBlobs = []
  · subst hne
    rw [paths_of_stage_nil hs]
    exact ⟨fun _ => List.Forall₂.nil, fun _ _ => ⟨fun _ h => (nomatch h), List.nodup_nil,
      fun _ h => (nomatch h), fun _ h => (nomatch h)⟩⟩
  · obtain ⟨own, hvol⟩ := volumes_of_stage hne hs hv
    have hd := downloads_of_stage hne hs
    rw [hd.paths, List.forall₂_map_right_iff, List.forall₂_same]
    exact ⟨fun ha => delivered_of_apart hvol hd ha,
      fun hf h => apart_of_delivered hvol hpaths hf h⟩

def plainHost : Host := ⟨PurePath.lexical, "/tmp", []⟩

def plainDir : PurePath := .ofStr "/tmp/hadcd-blobs-x1"

def twoBlobs (first second : Str) : List (BlobSpec × Answer) :=
  [(⟨"id1", some first, some (.str "/a")⟩, .served [1]),
    (⟨"id2", some second, some (.str "/b")⟩, .served [2])]

theorem nodup_declaredPath_twoBlobs (first second : Str) :
    ((twoBlobs first second).map fun s => declaredPath s.1).Nodup := by
  have hne : Json.str ("/a" : Str) ≠ .str ("/b" : Str) := fun h =>
    absurd (Json.str.inj h) (by decide)
  exact List.nodup_cons.mpr ⟨fun h => hne (List.mem_singleton.mp h), List.nodup_singleton _⟩

theorem delivered_twoNames :
    ∃ staged volumes, stage plainHost plainDir [] (twoBlobs "x/m.bin" "y/n.bin") = .ok staged ∧
      volumesDict plainHost staged.args = .ok volumes ∧ List.Forall₂
        (Delivered plainHost plainDir staged.files volumes) (twoBlobs "x/m.bin" "y/n.bin")
        staged.paths := by
  obtain ⟨staged, volumes, hs, hv⟩ : ∃ staged volumes,
      stage plainHost plainDir [] (twoBlobs "x/m.bin" "y/n.bin") = .ok staged ∧
      volumesDict plainHost staged.args = .ok volumes := ⟨_, _, rfl, rfl⟩
  refine ⟨staged, volumes, hs, hv,
    (delivered_iff_apart hs hv (nodup_declaredPath_twoBlobs _ _)).1 ?_⟩
  exact ⟨by decide, by decide, fun s _ h => (nomatch h), by decide⟩

/-- The second download replaces the first blob's file, and its mount the first mount. -/
theorem not_delivered_sameName :
    ∃ staged volumes, stage plainHost plainDir [] (twoBlobs "x/m.bin" "y/m.bin") = .ok staged ∧
      volumesDict plainHost staged.args = .ok volumes ∧
      ((twoBlobs "x/m.bin" "y/m.bin").map fun s => declaredPath s.1).Nodup ∧ ¬ List.Forall₂
        (Delivered plainHost plainDir staged.files volumes) (twoBlobs "x/m.bin" "y/m.bin")
        staged.paths := by
  obtain ⟨staged, volumes, hs, hv, hp, hf⟩ : ∃ staged volumes,
      stage plainHost plainDir [] (twoBlobs "x/m.bin" "y/m.bin") = .ok staged ∧
      volumesDict plainHost staged.args = .ok volumes ∧
      staged.paths = [.ofStr "/tmp/hadcd-blobs-x1/input/m.bin",
        .ofStr "/tmp/hadcd-blobs-x1/input/m.bin"] ∧
      staged.files.get "/tmp/hadcd-blobs-x1/input/m.bin" = some [2] := ⟨_, _, rfl, rfl, rfl, rfl⟩
  refine ⟨staged, volumes, hs, hv, nodup_declaredPath_twoBlobs _ _, fun h => ?_⟩
  rw [hp] at h
  obtain ⟨⟨source, mount, -, -, -, hreal, -, -, hfile⟩, -⟩ := List.forall₂_cons.mp h
  rw [hreal] at hfile
  exact absurd (hf.symm.trans hfile) (by decide)

end HadcdAgent.Blob
