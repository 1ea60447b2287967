import HadcdAgent.Blob.Staging
import HadcdAgent.Lib.Resolve

/-!
# Where downloads go

`BlobClient.download_all` (`agent/blob_client.py`) on a tree of directories, with the
files that it opens, where there are no symbolic links.
-/

namespace HadcdAgent.Blob

open Lib Lib.PyStr Container

/-! ### The source -/

/-- How the stream of a body ends; `raises` is an exception that `download` does not turn
into a `BlobClientError`. -/
inductive Ending where
  | complete
  | broken
  | raises

inductive Status where
  | found (chunks : List (List UInt8)) (ending : Ending)
  | notFound
  | failed
  | raises

/-- What a download meets: whether the parents can be made, the server's answer, and
whether the host lets a file at the destination be opened; `exc` is the text of the
exception, where there is one. -/
structure Reply where
  parentsMade : Bool
  status : Status
  opens : Bool
  exc : Str

/-- The directories and the regular files by their real paths, and the files that have
been opened for writing, in order. -/
structure Tree where
  dirs : List Str
  files : Files
  opened : List Str

/-- `dest.parent` and its parents. -/
def parents (host : Host) (dest : PurePath) : List Str :=
  dest.parts.dropLast.inits.map fun parts => host.realpath (PurePath.str ⟨dest.root, parts⟩)

def failure (blobId exc : Str) : DownloadError :=
  .blobClientError (("failed to download blob " : Str) ++ blobId ++ [':', ' '] ++ exc)

def receive (host : Host) (blobId : Str) (dest : PurePath) (r : Reply)
    (chunks : List (List UInt8)) (ending : Ending) (tree : Tree) :
    Tree × Except DownloadError Unit :=
  let target := host.realpath dest.str
  if target ∈ tree.dirs ∨ r.opens = false then (tree, .error (failure blobId r.exc))
  else
    let tree := { tree with
      files := tree.files.set target chunks.flatten
      opened := tree.opened ++ [target] }
    match ending with
    | .complete => (tree, .ok ())
    | .broken => (tree, .error (failure blobId r.exc))
    | .raises => (tree, .error .other)

/-- `BlobClient.download`. A regular file among the parents makes `mkdir` raise. -/
def fetch (host : Host) (blobId : Str) (dest : PurePath) (r : Reply) (tree : Tree) :
    Tree × Except DownloadError Unit :=
  if r.parentsMade = false ∨ (parents host dest).any (· ∈ tree.files.keys) then
    (tree, .error .other)
  else
    let tree := { tree with dirs := tree.dirs ++ parents host dest }
    match r.status with
    | .notFound =>
      (tree, .error (.blobClientError (("blob " : Str) ++ blobId ++ " not found on server")))
    | .failed => (tree, .error (failure blobId r.exc))
    | .raises => (tree, .error .other)
    | .found chunks ending => receive host blobId dest r chunks ending tree

/-- The loop of `download_all`; `resolve` raises for a path with a NUL in it. -/
def fetchSpecs (host : Host) (baseDir : PurePath) :
    List (BlobSpec × Reply) → Tree → Tree × Except DownloadError (List PurePath)
  | [], tree => (tree, .ok [])
  | (spec, r) :: specs, tree =>
    let dest := destination baseDir spec
    if '\x00' ∈ dest.str then (tree, .error .other)
    else if inside host baseDir dest.str then
      match fetch host spec.blobId dest r tree with
      | (tree, .error e) => (tree, .error e)
      | (tree, .ok _) =>
        match fetchSpecs host baseDir specs tree with
        | (tree, .error e) => (tree, .error e)
        | (tree, .ok paths) => (tree, .ok (dest :: paths))
    else (tree, .error (.unsafeDestination spec.blobId spec.filename))

def fetchAll (host : Host) (baseDir : PurePath) (specs : List (BlobSpec × Reply)) (tree : Tree) :
    Tree × Except DownloadError (List PurePath) :=
  if '\x00' ∈ baseDir.str then (tree, .error .other) else fetchSpecs host baseDir specs tree

/-! ### One download -/

section Fetch

variable {host : Host} {baseDir : PurePath} {blobId : Str} {dest : PurePath} {r : Reply}
  {tree tree' : Tree}

theorem receive_opened (tree : Tree) {received : Tree × Except DownloadError Unit}
    {chunks : List (List UInt8)} {ending : Ending}
    (h : receive host blobId dest r chunks ending tree = received) :
    received.1.dirs = tree.dirs ∧ ∀ p ∈ received.1.opened,
      p ∈ tree.opened ∨ p = host.realpath dest.str ∧ p ∉ tree.dirs := by
  subst h
  unfold receive
  dsimp only
  split_ifs with hrefused
  · exact ⟨rfl, fun p hp => Or.inl hp⟩
  · rw [not_or] at hrefused
    cases ending <;>
    · refine ⟨rfl, fun p hp => ?_⟩
      rcases List.mem_append.mp hp with hp | hp
      · exact Or.inl hp
      · rw [List.mem_singleton] at hp
        exact Or.inr ⟨hp, hp ▸ hrefused.1⟩

theorem fetch_opened :
    (∀ p ∈ tree.dirs, p ∈ (fetch host blobId dest r tree).1.dirs) ∧
    ∀ p ∈ (fetch host blobId dest r tree).1.opened,
      p ∈ tree.opened ∨ p = host.realpath dest.str ∧ p ∉ tree.dirs := by
  unfold fetch
  split_ifs
  · exact ⟨fun p hp => hp, fun p hp => Or.inl hp⟩
  · dsimp only
    cases r.status with
    | found chunks ending =>
      obtain ⟨hdirs, hopened⟩ :=
        receive_opened { tree with dirs := tree.dirs ++ parents host dest } rfl
      constructor
      · intro p hp
        rw [hdirs]
        exact List.mem_append_left _ hp
      · intro p hp
        rcases hopened p hp with hold | ⟨htarget, hnot⟩
        · exact Or.inl hold
        · exact Or.inr ⟨htarget, fun hmem => hnot (List.mem_append_left _ hmem)⟩
    | _ => exact ⟨fun p hp => List.mem_append_left _ hp, fun p hp => Or.inl hp⟩

end Fetch

/-! ### The whole list -/

section Run

variable {host : Host} {baseDir : PurePath}

theorem fetchSpecs_preserves (Inv : Tree → Prop)
    (hfetch : ∀ spec r tree, inside host baseDir (destination baseDir spec).str = true →
      Inv tree → Inv (fetch host spec.blobId (destination baseDir spec) r tree).1)
    (specs : List (BlobSpec × Reply)) {tree : Tree} (h : Inv tree) :
    Inv (fetchSpecs host baseDir specs tree).1 := by
  induction specs generalizing tree with
  | nil => exact h
  | cons s specs ih =>
    obtain ⟨spec, r⟩ := s
    rw [fetchSpecs]
    split_ifs with hnul hinside
    · exact h
    · have hnext := hfetch spec r tree hinside h
      generalize fetch host spec.blobId (destination baseDir spec) r tree = fetched at hnext
      obtain ⟨tree₁, e | _⟩ := fetched
      · exact hnext
      · have hrest := ih hnext
        dsimp only
        generalize fetchSpecs host baseDir specs tree₁ = rest at hrest
        obtain ⟨tree₂, e | paths⟩ := rest
        · exact hrest
        · exact hrest
    · exact h

theorem apart_fetchSpecs (specs : List (BlobSpec × Reply)) {tree : Tree} {p : Str}
    (h : p ∈ tree.dirs ∧ p ∉ tree.opened) :
    p ∈ (fetchSpecs host baseDir specs tree).1.dirs ∧
      p ∉ (fetchSpecs host baseDir specs tree).1.opened := by
  refine fetchSpecs_preserves (fun tree => p ∈ tree.dirs ∧ p ∉ tree.opened) ?_ specs h
  rintro spec r tree - ⟨hdir, hopened⟩
  refine ⟨fetch_opened.1 p hdir, fun hp => ?_⟩
  rcases fetch_opened.2 p hp with hold | ⟨-, hnot⟩
  · exact hopened hold
  · exact hnot hdir

theorem fetchSpecs_append {before after : List (BlobSpec × Reply)} {tree tree₁ tree₂ : Tree}
    {paths : List PurePath} {e : DownloadError}
    (hbefore : fetchSpecs host baseDir before tree = (tree₁, .ok paths))
    (hafter : fetchSpecs host baseDir after tree₁ = (tree₂, .error e)) :
    fetchSpecs host baseDir (before ++ after) tree = (tree₂, .error e) := by
  induction before generalizing tree paths with
  | nil =>
    cases hbefore
    exact hafter
  | cons s before ih =>
    obtain ⟨spec, r⟩ := s
    rw [fetchSpecs] at hbefore
    rw [List.cons_append, fetchSpecs]
    split_ifs at hbefore ⊢
    · cases hbefore
    · generalize fetch host spec.blobId (destination baseDir spec) r tree = fetched at hbefore
      obtain ⟨tree', e' | _⟩ := fetched
      · cases hbefore
      · dsimp only at hbefore ⊢
        cases hrest : fetchSpecs host baseDir before tree' with
        | mk tree'' result =>
          rw [hrest] at hbefore
          cases result with
          | error e' => cases hbefore
          | ok paths' =>
            cases hbefore
            rw [ih hrest]
    · cases hbefore

end Run

/-! ### The downloads of the container task -/

theorem receive_eq_ok {host : Host} {blobId : Str} {dest : PurePath} {r : Reply}
    {chunks : List (List UInt8)} {ending : Ending} {tree tree' : Tree}
    (h : receive host blobId dest r chunks ending tree = (tree', .ok ())) :
    tree'.files = tree.files.set (host.realpath dest.str) chunks.flatten := by
  unfold receive at h
  dsimp only at h
  split_ifs at h
  · cases h
  · cases ending <;> cases h
    rfl

def Reply.served (r : Reply) : Answer :=
  match r.status with
  | .found chunks _ => .served chunks.flatten
  | .notFound => .notFound
  | .failed => .failed r.exc
  | .raises => .raises

theorem fetch_eq_ok {host : Host} {blobId : Str} {dest : PurePath} {r : Reply} {tree tree' : Tree}
    (h : fetch host blobId dest r tree = (tree', .ok ())) :
    download host blobId dest r.served tree.files = .ok tree'.files := by
  unfold fetch at h
  split_ifs at h
  · cases h
  · dsimp only at h
    rw [Reply.served]
    cases hstatus : r.status with
    | found chunks ending =>
      rw [hstatus] at h
      rw [receive_eq_ok h]
      rfl
    | _ =>
      rw [hstatus] at h
      cases h

/-- Downloads that all go well leave the files that `downloadAll` tells. -/
theorem downloadAll_of_fetchAll {host : Host} {baseDir : PurePath}
    {specs : List (BlobSpec × Reply)} {tree tree' : Tree} {paths : List PurePath}
    (h : fetchAll host baseDir specs tree = (tree', .ok paths)) :
    downloadAll host baseDir (specs.map fun s => (s.1, s.2.served)) tree.files =
      .ok (paths, tree'.files) := by
  rw [fetchAll] at h
  split_ifs at h
  · cases h
  induction specs generalizing tree paths with
  | nil =>
    cases h
    rfl
  | cons s specs ih =>
    obtain ⟨spec, r⟩ := s
    rw [fetchSpecs] at h
    split_ifs at h with hnul hinside
    · cases h
    · rw [List.map_cons, downloadAll, if_pos hinside]
      cases hfetch : fetch host spec.blobId (destination baseDir spec) r tree with
      | mk tree₁ result =>
        rw [hfetch] at h
        cases result with
        | error e => cases h
        | ok _ =>
          rw [fetch_eq_ok hfetch]
          cases hrest : fetchSpecs host baseDir specs tree₁ with
          | mk tree₂ result =>
            dsimp only at h
            rw [hrest] at h
            cases result with
            | error e => cases h
            | ok paths' =>
              cases h
              have hwhole := ih hrest
              dsimp only [Bind.bind, Except.bind]
              rw [hwhole]
              rfl
    · cases h

/-! ### Names -/

def basename (name : Option Str) : Str :=
  strip ((((name.getD []).map fun c => if c = '\\' then '/' else c).splitOn '/').getLastD [])

/-- What is left of a server's file name, if it is of use. -/
def usableName (name : Option Str) : Option Str :=
  if basename name ∈ ([[], ['.'], ['.', '.']] : List Str) then none else some (basename name)

theorem safeBlobName_eq (name : Option Str) (fallback : Str) :
    safeBlobName name fallback = (usableName name).getD fallback := by
  have hsplit : safeBlobName name fallback =
      if basename name ∈ ([[], ['.'], ['.', '.']] : List Str) then fallback else basename name :=
    rfl
  rw [hsplit, usableName]
  split_ifs <;> rfl

theorem basename_stripped (name : Option Str) : Stripped (basename name) := stripped_strip _

theorem not_mem_basename (name : Option Str) : '/' ∉ basename name ∧ '\\' ∉ basename name := by
  rw [basename]
  generalize hslashed : ((name.getD []).map fun c => if c = '\\' then '/' else c) = slashed
  have hmem : (slashed.splitOn '/').getLastD [] ∈ slashed.splitOn '/' := by
    rw [List.getLastD_eq_getLast?, List.getLast?_eq_some_getLast (List.splitOn_ne_nil _ _)]
    exact List.getLast_mem _
  generalize (slashed.splitOn '/').getLastD [] = base at hmem
  constructor
  · intro hc
    exact not_mem_of_mem_splitOn hmem ((strip_sublist base).subset hc)
  · intro hc
    have hin := (PurePath.mem_intercalate_iff (by decide)).mpr
      ⟨base, hmem, (strip_sublist base).subset hc⟩
    rw [List.intercalate_splitOn, ← hslashed] at hin
    obtain ⟨c, -, heq⟩ := List.mem_map.mp hin
    split_ifs at heq with hback
    · cases heq
    · exact hback heq

theorem basename_eq_self {name : Str} (hslash : '/' ∉ name) (hback : '\\' ∉ name)
    (hstripped : Stripped name) : basename (some name) = name := by
  have hmap : (name.map fun c => if c = '\\' then '/' else c) = name := by
    refine (List.map_congr_left fun c hc => ?_).trans name.map_id
    have hne : c ≠ '\\' := fun heq => hback (heq ▸ hc)
    exact if_neg hne
  rw [basename, Option.getD_some, hmap, List.splitOn_eq_singleton hslash]
  exact hstripped

structure SafeName (name : Str) : Prop where
  segment : IsSegment name
  noBackslash : '\\' ∉ name
  stable : ∀ fallback, safeBlobName (some name) fallback = name

theorem safeName_of_usableName {name : Option Str} {r : Str} (h : usableName name = some r) :
    SafeName r := by
  rw [usableName] at h
  split_ifs at h with hbad
  cases h
  obtain ⟨hslash, hback⟩ := not_mem_basename name
  have hself := basename_eq_self hslash hback (basename_stripped name)
  refine ⟨?_, hback, fun fallback => ?_⟩
  · simp only [List.mem_cons, List.not_mem_nil, or_false, not_or] at hbad
    exact ⟨hbad.1, hslash, hbad.2.1, hbad.2.2⟩
  · rw [safeBlobName_eq, usableName, hself, if_neg hbad, Option.getD_some]

/-! ### The staging directory -/

/-- `os.path.realpath` with no symbolic links in the directory at `dir`, which is `base`. -/
structure LinkFree (host : Host) (dir : Str) (base : AbsPath) : Prop where
  normal : ∀ t, ∃ q : AbsPath, host.realpath t = q.str
  resolved : host.realpath (PurePath.ofStr dir).str = base.str
  entry : ∀ name, IsSegment name → ∃ q : AbsPath, q.parts = base.parts ++ [name] ∧
    host.realpath ((PurePath.ofStr dir).join name).str = q.str

/-- What `download_all` owes the directory at `dir`, from a tree with no file opened. -/
structure StaysStaged (host : Host) (dir : Str) (base : AbsPath) (dirs : List Str) (files : Files)
    (specs : List (BlobSpec × Reply)) : Prop where
  within : ∀ p ∈ (fetchAll host (.ofStr dir) specs ⟨dirs, files, []⟩).1.opened,
    base.WithinStr p
  beneath : base.str ∈ dirs →
    ∀ p ∈ (fetchAll host (.ofStr dir) specs ⟨dirs, files, []⟩).1.opened,
      base.BeneathStr p
  refused : '\x00' ∉ dir → ∀ before spec r after tree paths, specs = before ++ (spec, r) :: after →
    fetchAll host (.ofStr dir) before ⟨dirs, files, []⟩ = (tree, .ok paths) →
    '\x00' ∉ spec.blobId →
    ¬ base.WithinStr (host.realpath (destination (.ofStr dir) spec).str) →
    fetchAll host (.ofStr dir) specs ⟨dirs, files, []⟩ =
      (tree, .error (.unsafeDestination spec.blobId spec.filename))
  names : ∀ spec ∈ specs, ∀ name, usableName spec.1.filename = some name →
    safeBlobName spec.1.filename spec.1.blobId = name ∧ SafeName name

section Staged

variable {host : Host} {dir : Str} {base : AbsPath} (hfree : LinkFree host dir base)

include hfree

theorem inside_iff (path : Str) :
    inside host (.ofStr dir) path = true ↔ base.WithinStr (host.realpath path) := by
  obtain ⟨q, hq⟩ := hfree.normal path
  rw [inside, hfree.resolved, hq, AbsPath.withinStr_str_iff]
  exact AbsPath.isRelativeTo_iff _ _

theorem within_fetchSpecs (specs : List (BlobSpec × Reply)) {tree : Tree}
    (h : ∀ p ∈ tree.opened, base.WithinStr p) :
    ∀ p ∈ (fetchSpecs host (.ofStr dir) specs tree).1.opened, base.WithinStr p := by
  refine fetchSpecs_preserves (fun tree => ∀ p ∈ tree.opened, base.WithinStr p) ?_ specs h
  intro spec r tree hinside hall p hp
  rcases fetch_opened.2 p hp with hold | ⟨rfl, -⟩
  · exact hall p hold
  · exact (inside_iff hfree _).mp hinside

theorem within_destination_of_usable {spec : BlobSpec} {name : Str}
    (h : usableName spec.filename = some name) :
    base.WithinStr (host.realpath (destination (.ofStr dir) spec).str) := by
  have hname : safeBlobName spec.filename spec.blobId = name := by
    rw [safeBlobName_eq, h, Option.getD_some]
  obtain ⟨q, hparts, hq⟩ := hfree.entry name (safeName_of_usableName h).segment
  rw [destination, hname, hq, AbsPath.withinStr_str_iff, hparts]
  exact List.prefix_append _ _

theorem fetchSpecs_outside {spec : BlobSpec} (hdir : '\x00' ∉ dir)
    (hid : '\x00' ∉ spec.blobId)
    (houtside : ¬ base.WithinStr (host.realpath (destination (.ofStr dir) spec).str))
    (r : Reply) (after : List (BlobSpec × Reply)) (tree : Tree) :
    fetchSpecs host (.ofStr dir) ((spec, r) :: after) tree =
      (tree, .error (.unsafeDestination spec.blobId spec.filename)) := by
  have hname : safeBlobName spec.filename spec.blobId = spec.blobId := by
    cases husable : usableName spec.filename with
    | none => rw [safeBlobName_eq, husable, Option.getD_none]
    | some name => exact absurd (within_destination_of_usable hfree husable) houtside
  have hnul : '\x00' ∉ (destination (.ofStr dir) spec).str := by
    intro hmem
    rw [destination, hname] at hmem
    rcases PurePath.mem_of_mem_join (by decide) (PurePath.proper_ofStr dir) (by decide) hmem
      with hbase | hblob
    · obtain ⟨s, hs, hc⟩ :=
        PurePath.exists_part_of_mem (by decide) _ (PurePath.rootOf_cases dir) (by decide) hbase
      exact hdir (PurePath.mem_of_mem_part (by decide) hs hc)
    · exact hid hblob
  rw [← inside_iff hfree] at houtside
  rw [fetchSpecs, if_neg hnul, if_neg houtside]

/-- Whatever the specs, downloads stay in the staging directory. -/
theorem downloads_stay_staged (dirs : List Str) (files : Files)
    (specs : List (BlobSpec × Reply)) : StaysStaged host dir base dirs files specs := by
  have hwithin : ∀ p ∈ (fetchAll host (.ofStr dir) specs ⟨dirs, files, []⟩).1.opened,
      base.WithinStr p := by
    intro p hp
    rw [fetchAll] at hp
    split_ifs at hp
    · cases hp
    · exact within_fetchSpecs hfree specs (fun _ h => by cases h) p hp
  refine ⟨hwithin, ?_, ?_, ?_⟩
  · intro hdir p hp
    refine (hwithin p hp).beneath ?_
    rintro rfl
    rw [fetchAll] at hp
    split_ifs at hp
    · cases hp
    · exact (apart_fetchSpecs specs ⟨hdir, List.not_mem_nil⟩).2 hp
  · rintro hdir before spec r after tree paths rfl hbefore hid houtside
    rw [fetchAll] at hbefore ⊢
    split_ifs at hbefore ⊢
    · cases hbefore
    · exact fetchSpecs_append hbefore (fetchSpecs_outside hfree hdir hid houtside r after tree)
  · intro spec _ name husable
    refine ⟨?_, safeName_of_usableName husable⟩
    rw [safeBlobName_eq, husable, Option.getD_some]

end Staged

def linkFreeHost (cwd : AbsPath) : Host := ⟨fun t => (cwd.resolve t).str, "/tmp", []⟩

theorem linkFree_linkFreeHost (cwd : AbsPath) (dir : Str) :
    LinkFree (linkFreeHost cwd) dir (cwd.resolve dir) where
  normal t := ⟨cwd.resolve t, rfl⟩
  resolved := congrArg AbsPath.str (AbsPath.resolve_ofStr cwd dir)
  entry name hname := by
    refine ⟨_, ?_, rfl⟩
    rw [AbsPath.resolve_join_segment cwd (PurePath.proper_ofStr dir) hname, AbsPath.resolve_ofStr]

def crafted : BlobSpec × Reply :=
  (⟨"../cron.d/x", some "..", none⟩, ⟨true, .found [[35]] .complete, true, []⟩)

theorem downloads_stay_staged_crafted :
    StaysStaged (linkFreeHost .fsRoot) "/tmp/input" (AbsPath.fsRoot.resolve "/tmp/input")
      ["/tmp/input"] Dict.empty [crafted] :=
  downloads_stay_staged (linkFree_linkFreeHost .fsRoot "/tmp/input") ["/tmp/input"] Dict.empty
    [crafted]

end HadcdAgent.Blob
