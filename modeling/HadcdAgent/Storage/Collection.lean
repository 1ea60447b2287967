import HadcdAgent.Storage.Pool

/-!
# The collector beside the transfers

`_storage_gc_loop` and `_transfer_loop` (`agent/agent.py`) share the pool directory
without a lock. A pass of the collector may come wherever a transfer awaits
something; it removes every temporary file and what the manifest does not list,
and the manifest may be older than the files it is held against.
-/

namespace HadcdAgent.Storage

open Lib

/-! ### What a pass removes -/

theorem gcPass_of_not_mem {active : List Str} {listing : List (Str × Bool)} {name : Str}
    (h : (name, true) ∉ listing) (pool : Pool) : gcPass active listing pool name = pool name := by
  induction listing generalizing pool with
  | nil => rfl
  | cons entry rest ih =>
    obtain ⟨other, removable⟩ := entry
    rw [List.mem_cons, not_or] at h
    rw [gcPass, ih h.2]
    split_ifs with hremoved
    · have hother : name ≠ other := by
        intro heq
        rw [Bool.and_eq_true] at hremoved
        exact h.1 (by rw [heq, hremoved.2])
      exact Function.update_of_ne hother _ _
    · rfl

theorem gcPass_of_not_stale {active : List Str} {name : Str} (h : stale active name = false)
    (listing : List (Str × Bool)) (pool : Pool) :
    gcPass active listing pool name = pool name := by
  induction listing generalizing pool with
  | nil => rfl
  | cons entry rest ih =>
    obtain ⟨other, removable⟩ := entry
    rw [gcPass, ih]
    split_ifs with hremoved
    · have hother : name ≠ other := by
        intro heq
        rw [← heq, h] at hremoved
        cases hremoved
      exact Function.update_of_ne hother _ _
    · rfl

theorem gcPass_of_none {pool : Pool} {name : Str} (h : pool name = none) (active : List Str)
    (listing : List (Str × Bool)) : gcPass active listing pool name = none := by
  cases hname : gcPass active listing pool name with
  | none => rfl
  | some content =>
    have hbefore := pool_of_gcPass hname
    rw [h] at hbefore
    cases hbefore

theorem gcPass_eq_none {active : List Str} {listing : List (Str × Bool)} {name : Str}
    (hstale : stale active name = true) (h : (name, true) ∈ listing) (pool : Pool) :
    gcPass active listing pool name = none := by
  induction listing generalizing pool with
  | nil => cases h
  | cons entry rest ih =>
    rcases List.mem_cons.mp h with rfl | hrest
    · rw [gcPass, hstale]
      exact gcPass_of_none (Function.update_self ..) active rest
    · exact ih hrest _

theorem stale_tmp {name : Str} (h : ".tmp".toList <:+ name) (active : List Str) :
    stale active name = true := by
  rw [stale, List.isSuffixOf_iff_suffix.mpr h, Bool.true_or]

theorem stale_digest_iff {name : Str} (h : IsDigest name) (active : List Str) :
    stale active name = true ↔ name ∉ active := by
  have htmp : ".tmp".toList.isSuffixOf name = false := by
    rw [Bool.eq_false_iff]
    intro hsuffix
    exact not_isDigest_of_suffix (List.isSuffixOf_iff_suffix.mp hsuffix) h
  rw [stale, htmp, Bool.false_or, Bool.and_eq_true, decide_eq_true_eq, decide_eq_true_eq]
  exact ⟨fun hs => hs.2, fun hs => ⟨h.1, hs⟩⟩

/-! ### A pass during a download -/

def Phase.tmpFile : Phase → Option Str
  | .streaming _ _ fh _ _ => fh
  | .checking job _ _ => some (tmpName job.sha256)
  | _ => none

/-- Whether another task may run. After the last chunk of the relay the file is
closed, hashed and renamed in one go; the stream of a peer is first closed. -/
def Phase.awaits : Phase → Bool
  | .streaming job .relay _ seq _ => seq < job.chunksTotal
  | .checking _ .relay _ => false
  | _ => true

/-- A step of the node, a pass of the collector only where the transfer awaits something. -/
def interleaved (digest : Bytes → Digest) (ownIp : Option Str) (n : Node) (event : Event) :
    Option Node :=
  match event with
  | .gc active listing =>
    if n.phase.awaits then step digest ownIp n (.gc active listing) else none
  | _ => step digest ownIp n event

/-- A pass leaves the temporary file of the download alone, and a download with the
right hash, if the file system lets it rename its file, ends stored and acked. -/
def Undisturbed (digest : Bytes → Digest) (n : Node) : Event → Node → Prop
  | .gc _ _, t => ∀ name, n.phase.tmpFile = some name → t.pool name = n.pool name
  | .transfer (.renamed true), t => ∀ job via h, n.phase = .checking job via h →
    (digest h).1 = job.sha256 → t.ack = some job ∧ Held digest t.pool job.sha256
  | _, _ => True

/-- The pass does not come while a temporary file is there for it to remove. -/
def Spares (n : Node) : Event → Prop
  | .gc _ listing => n.phase.awaits = true → ∀ name, n.phase.tmpFile = some name →
    n.pool name ≠ none → (name, true) ∉ listing
  | _ => True

/-- The temporary file is there while it is written and checked. -/
def Phase.Kept (pool : Pool) : Phase → Prop
  | .streaming job _ _ _ _ | .checking job _ _ =>
    IsDigest job.sha256 → pool (tmpName job.sha256) ≠ none
  | _ => True

structure KeptInv (digest : Bytes → Digest) (n : Node) : Prop where
  inv : Inv digest n
  kept : n.phase.Kept n.pool

theorem keptInv_start (digest : Bytes → Digest) : KeptInv digest Node.start :=
  ⟨inv_start digest, trivial⟩

theorem tmpFile_suffix {pool : Pool} {phase : Phase} {name : Str} (hs : phase.Staged pool)
    (h : phase.tmpFile = some name) : ".tmp".toList <:+ name := by
  cases phase with
  | streaming job via fh seq hashed =>
    have hfh : fh = some name := h
    rw [hfh] at hs
    exact suffix_of_leads_tmpName hs.1
  | checking job via hashed =>
    cases h
    exact ⟨job.sha256, rfl⟩
  | _ => cases h

theorem Phase.Kept.of_staged {phase : Phase} (h : ∀ p, phase.Staged p) (pool : Pool) :
    phase.Kept pool := by
  have hnot : ∀ (sha256 : Str) (hashed : Bytes), ¬ ∀ (p : Pool) (content : Bytes),
      p (tmpName sha256) = some content → content = hashed := by
    intro sha256 hashed hall
    have hlonger := hall (fun _ => some (0 :: hashed)) _ rfl
    exact absurd (congrArg List.length hlonger) (by simp)
  cases phase with
  | streaming job via fh seq hashed =>
    intro hd
    exact absurd (fun p => (h p).2 hd) (hnot job.sha256 hashed)
  | checking job via hashed =>
    intro hd
    exact absurd (fun p => h p hd) (hnot job.sha256 hashed)
  | _ => trivial

theorem Phase.Kept.of_tmpFile {pool pool' : Pool} {phase : Phase} (hk : phase.Kept pool)
    (hs : phase.Staged pool) (h : ∀ name, phase.tmpFile = some name → pool' name = pool name) :
    phase.Kept pool' := by
  cases phase with
  | streaming job via fh seq hashed =>
    intro hd
    have hfh : fh = some (tmpName job.sha256) := eq_tmpName_of_leads hd hs.1
    rw [h _ hfh]
    exact hk hd
  | checking job via hashed =>
    intro hd
    rw [h _ rfl]
    exact hk hd
  | _ => trivial

section Step

variable {digest : Bytes → Digest} {ownIp : Option Str} {pool : Pool} {phase : Phase}
  {event : TransferEvent} {out : Outcome}

theorem kept_of_step (h : serviceTransferJob digest ownIp pool phase event = some out)
    (hs : phase.Staged pool) (hk : phase.Kept pool) : out.phase.Kept out.pool := by
  cases moved_of_step h with
  | quiet hquiet => exact Phase.Kept.of_staged hquiet pool
  | present => trivial
  | opened hleads =>
    intro hd
    cases eq_tmpName_of_leads hd hleads
    simp [goto, truncate]
  | wrote data =>
    intro hd
    have hpresent := hk hd
    cases eq_tmpName_of_leads hd hs.1
    simpa [goto, write] using hpresent
  | closed => exact hk
  | renamed => trivial
  | unlinked hleads hquiet => exact Phase.Kept.of_staged hquiet _

theorem stored_of_kept {job : Job} {via : Via} {h : Bytes}
    (hstep : serviceTransferJob digest ownIp pool (.checking job via h) (.renamed true) = some out)
    (hs : (Phase.checking job via h).Staged pool) (hk : (Phase.checking job via h).Kept pool)
    (hhash : (digest h).1 = job.sha256) :
    out.ack = some job ∧ Held digest out.pool job.sha256 := by
  have hd : IsDigest job.sha256 := hhash ▸ (digest h).2
  obtain ⟨content, hcontent⟩ := Option.ne_none_iff_exists'.mp (hk hd)
  have hright : content = h := hs hd content hcontent
  simp only [serviceTransferJob, hhash, if_true, hcontent] at hstep
  cases hstep
  refine ⟨rfl, content, rename_dest .., ?_⟩
  rw [hright]
  exact hhash

end Step

section Interleaved

variable {digest : Bytes → Digest} {ownIp : Option Str} {n t : Node} {event : Event}

theorem step_of_interleaved (h : interleaved digest ownIp n event = some t) :
    step digest ownIp n event = some t := by
  cases event with
  | gc active listing =>
    simp only [interleaved] at h
    split_ifs at h
    exact h
  | _ => exact h

theorem keptInv_step (hi : KeptInv digest n) (hp : Spares n event)
    (h : interleaved digest ownIp n event = some t) :
    KeptInv digest t ∧ Undisturbed digest n event t := by
  have hstep := step_of_interleaved h
  have hinv : Inv digest t := step_inv hi.inv hstep
  cases event with
  | transfer event =>
    obtain ⟨out, hout, rfl⟩ := Option.map_eq_some_iff.mp hstep
    refine ⟨⟨hinv, kept_of_step hout hi.inv.staged hi.kept⟩, ?_⟩
    unfold Undisturbed
    split
    case h_1 heq => cases heq
    case h_2 heq =>
      cases heq
      intro job via hashed hphase hhash
      rw [hphase] at hout
      exact stored_of_kept hout (hphase ▸ hi.inv.staged) (hphase ▸ hi.kept) hhash
    case h_3 => trivial
  | gc active listing =>
    simp only [interleaved] at h
    split_ifs at h with hawaits
    cases h
    have hsame : ∀ name, n.phase.tmpFile = some name →
        gcPass active listing n.pool name = n.pool name := by
      intro name hname
      by_cases hpresent : n.pool name = none
      · rw [hpresent, gcPass_of_none hpresent]
      · exact gcPass_of_not_mem (hp hawaits name hname hpresent) n.pool
    exact ⟨⟨hinv, hi.kept.of_tmpFile hi.inv.staged hsame⟩, hsame⟩
  | request path statOk =>
    rcases step_request hstep with ⟨code, message, rfl⟩ | ⟨headers, rfl, hre⟩
    · exact ⟨⟨hinv, hi.kept⟩, trivial⟩
    · exact ⟨⟨hinv, hi.kept⟩, trivial⟩
  | send sending =>
    obtain ⟨headers, hserving, rfl⟩ := step_send hstep
    exact ⟨⟨hinv, hi.kept⟩, trivial⟩
  | crash =>
    cases hstep
    exact ⟨⟨hinv, trivial⟩, trivial⟩

theorem spares_of_undisturbed (hi : KeptInv digest n)
    (h : ∀ t, interleaved digest ownIp n event = some t → Undisturbed digest n event t) :
    Spares n event := by
  cases event with
  | gc active listing =>
    intro hawaits name hname hpresent hlisted
    have hkept : gcPass active listing n.pool name = n.pool name :=
      h _ (by simp only [interleaved, hawaits, if_true, step]; rfl) name hname
    have hstale := stale_tmp (tmpFile_suffix hi.inv.staged hname) active
    rw [gcPass_eq_none hstale hlisted] at hkept
    exact hpresent hkept.symm
  | _ => trivial

end Interleaved

/-- In every run of the two loops, no pass of the collector disturbs a download,
and each that comes with the right hash ends stored and acked, exactly when no pass
comes while the download has a temporary file that can be removed. -/
theorem undisturbed_iff (digest : Bytes → Digest) (ownIp : Option Str) (events : List Event) :
    Run.AlongSteps (interleaved digest ownIp) (Undisturbed digest) Node.start events ↔
      Run.Along (interleaved digest ownIp) Spares Node.start events := by
  have hkeep : ∀ n event t, KeptInv digest n → Spares n event →
      interleaved digest ownIp n event = some t →
      KeptInv digest t ∧ Undisturbed digest n event t := fun _ _ _ => keptInv_step
  have hback : ∀ n event, KeptInv digest n →
      (∀ t, interleaved digest ownIp n event = some t → Undisturbed digest n event t) →
      Spares n event := fun _ _ => spares_of_undisturbed
  exact Run.alongSteps_iff_guard hkeep hback (keptInv_start digest)

def zeroJob : Job := ⟨.str "job".toList, (zeroDigest []).1, 1, none⟩

/-- A pass between the opening of the temporary file and the only chunk. When the
chunk has come with the right hash there is no file to rename. -/
def passDuringDownload : List Event :=
  [.transfer (.job zeroJob false), .transfer (.opened (some (tmpName zeroJob.sha256))),
    .gc [zeroJob.sha256] [(tmpName zeroJob.sha256, true)], .transfer (.relayChunk 200 [1]),
    .transfer .closed, .transfer (.renamed true)]

theorem not_undisturbed_pass :
    ¬ Run.AlongSteps (interleaved zeroDigest none) (Undisturbed zeroDigest) Node.start
      passDuringDownload ∧
    (Run.exec (interleaved zeroDigest none) Node.start passDuringDownload).map
      (fun n => (n.ack.isSome, (n.pool zeroJob.sha256).isSome)) = some (false, false) := by
  constructor
  · intro h
    have hpass := ((h.2 _ rfl).2 _ rfl).1 _ rfl (tmpName zeroJob.sha256) rfl
    exact absurd hpass (by decide +kernel)
  · decide +kernel

/-! ### The manifest and the replicas -/

/-- The request of the collector: on its way, or answered with the assets that were
active when the backend drew the manifest up. -/
inductive Manifest where
  | idle
  | requested
  | taken (snapshot : List Str)

/-- The node and the backend, by the hashes of the assets. `replicas` and `fresh`
only record what has happened: the assets that were acked and have been active
since, and those acked since the manifest was drawn up. -/
structure World where
  node : Node
  active : List Str
  issued : List Str
  manifest : Manifest
  replicas : List Str
  fresh : List Str

def World.start : World := ⟨Node.start, [], [], .idle, [], []⟩

inductive WorldEvent where
  | add (asset : Digest)
  | delete (asset : Digest)
  | issue (asset : Digest)
  | ask
  | take
  | deliver (listing : List (Str × Bool))
  | lost
  | node (event : Event)

def World.settle (w : World) (n : Node) : World :=
  match n.ack with
  | some job => { w with
      node := n
      replicas := if job.sha256 ∈ w.active then job.sha256 :: w.replicas else w.replicas
      fresh := job.sha256 :: w.fresh }
  | none => { w with node := n }

/-- Jobs are issued only for active assets; a job on its way, or polled again, may
come at any time after that. -/
def World.step (digest : Bytes → Digest) (ownIp : Option Str) (w : World) :
    WorldEvent → Option World
  | .add asset => some { w with active := asset.1 :: w.active }
  | .delete asset => some { w with
      active := w.active.filter (· ≠ asset.1)
      replicas := w.replicas.filter (· ≠ asset.1) }
  | .issue asset =>
    if asset.1 ∈ w.active then some { w with issued := asset.1 :: w.issued } else none
  | .ask =>
    match w.manifest with
    | .idle => some { w with manifest := .requested }
    | _ => none
  | .take =>
    match w.manifest with
    | .requested => some { w with manifest := .taken w.active, fresh := [] }
    | _ => none
  | .deliver listing =>
    match w.manifest with
    | .taken snapshot => (interleaved digest ownIp w.node (.gc snapshot listing)).map fun n =>
        { w with node := n, manifest := .idle }
    | _ => none
  | .lost => some { w with manifest := .idle }
  | .node (.gc _ _) => none
  | .node .crash => (Storage.step digest ownIp w.node .crash).map fun n =>
      { w with node := n, manifest := .idle }
  | .node (.transfer (.job job elsewhere)) =>
    if job.sha256 ∈ w.issued then
      (Storage.step digest ownIp w.node (.transfer (.job job elsewhere))).map w.settle
    else none
  | .node event => (Storage.step digest ownIp w.node event).map w.settle

def SparesReplicas (w : World) : WorldEvent → World → Prop
  | .deliver _, t => ∀ name ∈ w.replicas, t.node.pool name = w.node.pool name
  | _, _ => True

/-- Of the assets that the manifest does not know, none that was acked after it was
drawn up, and is active still, has a file for the pass to remove. -/
def Current (w : World) : WorldEvent → Prop
  | .deliver listing => ∀ snapshot, w.manifest = .taken snapshot → w.node.phase.awaits = true →
    ∀ name ∈ w.fresh, name ∉ snapshot → name ∈ w.replicas → w.node.pool name ≠ none →
      (name, true) ∉ listing
  | _ => True

structure World.Inv (w : World) : Prop where
  named : ∀ name ∈ w.active, IsDigest name
  live : ∀ name ∈ w.replicas, name ∈ w.active
  known : ∀ snapshot, w.manifest = .taken snapshot →
    ∀ name ∈ w.replicas, name ∈ snapshot ∨ name ∈ w.fresh

theorem World.inv_start : World.start.Inv where
  named := fun _ h => (nomatch h)
  live := fun _ h => (nomatch h)
  known := fun _ h => (nomatch h)

section World

variable {digest : Bytes → Digest} {ownIp : Option Str} {w t : World}

theorem World.inv_settle (hi : w.Inv) (n : Node) : (w.settle n).Inv := by
  unfold World.settle
  split
  case h_1 job hack =>
    refine ⟨hi.named, ?_, ?_⟩
    · intro name hname
      dsimp only at hname
      split_ifs at hname with hactive
      · rcases List.mem_cons.mp hname with rfl | hold
        · exact hactive
        · exact hi.live name hold
      · exact hi.live name hname
    · intro snapshot hsnapshot name hname
      dsimp only at hname
      have hold : name = job.sha256 ∨ name ∈ w.replicas := by
        split_ifs at hname
        · exact List.mem_cons.mp hname
        · exact Or.inr hname
      rcases hold with rfl | hold
      · exact Or.inr (List.mem_cons_self ..)
      · rcases hi.known snapshot hsnapshot name hold with hin | hfresh
        · exact Or.inl hin
        · exact Or.inr (List.mem_cons_of_mem _ hfresh)
  case h_2 => exact ⟨hi.named, hi.live, hi.known⟩

theorem World.step_deliver {listing : List (Str × Bool)}
    (h : w.step digest ownIp (.deliver listing) = some t) :
    ∃ snapshot, w.manifest = .taken snapshot ∧ w.node.phase.awaits = true ∧
      t = { w with
        node := ⟨gcPass snapshot listing w.node.pool, w.node.phase, none, w.node.serving, none⟩
        manifest := .idle } := by
  simp only [World.step] at h
  split at h
  case h_1 snapshot hsnapshot =>
    obtain ⟨n, hn, rfl⟩ := Option.map_eq_some_iff.mp h
    simp only [interleaved] at hn
    split_ifs at hn with hawaits
    cases hn
    exact ⟨snapshot, hsnapshot, hawaits, rfl⟩
  case h_2 => cases h

theorem World.step_node {event : Event} (h : w.step digest ownIp (.node event) = some t) :
    (∃ n, t = { w with node := n, manifest := .idle }) ∨ ∃ n, t = w.settle n := by
  cases event with
  | gc => cases h
  | crash =>
    cases h
    exact Or.inl ⟨_, rfl⟩
  | transfer event =>
    cases event with
    | job job elsewhere =>
      simp only [World.step] at h
      split_ifs at h
      obtain ⟨n, -, rfl⟩ := Option.map_eq_some_iff.mp h
      exact Or.inr ⟨n, rfl⟩
    | _ =>
      obtain ⟨n, -, rfl⟩ := Option.map_eq_some_iff.mp h
      exact Or.inr ⟨n, rfl⟩
  | _ =>
    obtain ⟨n, -, rfl⟩ := Option.map_eq_some_iff.mp h
    exact Or.inr ⟨n, rfl⟩

theorem World.step_inv {event : WorldEvent} (hi : w.Inv)
    (h : w.step digest ownIp event = some t) : t.Inv := by
  cases event with
  | add asset =>
    cases h
    refine ⟨?_, fun name hname => List.mem_cons_of_mem _ (hi.live name hname), hi.known⟩
    intro name hname
    rcases List.mem_cons.mp hname with rfl | hold
    · exact asset.2
    · exact hi.named name hold
  | delete asset =>
    cases h
    refine ⟨fun name hname => hi.named name (List.mem_of_mem_filter hname), ?_, ?_⟩
    · intro name hname
      obtain ⟨hold, hne⟩ := List.mem_filter.mp hname
      exact List.mem_filter.mpr ⟨hi.live name hold, hne⟩
    · intro snapshot hsnapshot name hname
      exact hi.known snapshot hsnapshot name (List.mem_of_mem_filter hname)
  | issue asset =>
    simp only [World.step] at h
    split_ifs at h
    cases h
    exact ⟨hi.named, hi.live, hi.known⟩
  | ask =>
    simp only [World.step] at h
    split at h
    · cases h
      exact ⟨hi.named, hi.live, fun _ hm => (nomatch hm)⟩
    · cases h
  | take =>
    simp only [World.step] at h
    split at h
    · cases h
      refine ⟨hi.named, hi.live, ?_⟩
      intro snapshot hsnapshot name hname
      cases hsnapshot
      exact Or.inl (hi.live name hname)
    · cases h
  | deliver listing =>
    obtain ⟨snapshot, -, -, rfl⟩ := World.step_deliver h
    exact ⟨hi.named, hi.live, fun _ hm => (nomatch hm)⟩
  | lost =>
    cases h
    exact ⟨hi.named, hi.live, fun _ hm => (nomatch hm)⟩
  | node event =>
    rcases World.step_node h with ⟨n, rfl⟩ | ⟨n, rfl⟩
    · exact ⟨hi.named, hi.live, fun _ hm => (nomatch hm)⟩
    · exact World.inv_settle hi n

theorem sparesReplicas_of_current {event : WorldEvent} (hi : w.Inv) (hc : Current w event)
    (h : w.step digest ownIp event = some t) : SparesReplicas w event t := by
  cases event with
  | deliver listing =>
    obtain ⟨snapshot, hsnapshot, hawaits, rfl⟩ := World.step_deliver h
    intro name hname
    have hd : IsDigest name := hi.named name (hi.live name hname)
    by_cases hin : name ∈ snapshot
    · have hstale : stale snapshot name = false := by
        rw [Bool.eq_false_iff, Ne, stale_digest_iff hd]
        exact fun hnot => hnot hin
      exact gcPass_of_not_stale hstale listing w.node.pool
    · have hfresh : name ∈ w.fresh :=
        (hi.known snapshot hsnapshot name hname).resolve_left hin
      by_cases hpresent : w.node.pool name = none
      · exact (gcPass_of_none hpresent snapshot listing).trans hpresent.symm
      · exact gcPass_of_not_mem
          (hc snapshot hsnapshot hawaits name hfresh hin hname hpresent) w.node.pool
  | _ => trivial

theorem current_of_sparesReplicas {event : WorldEvent} (hi : w.Inv)
    (h : ∀ t, w.step digest ownIp event = some t → SparesReplicas w event t) :
    Current w event := by
  cases event with
  | deliver listing =>
    intro snapshot hsnapshot hawaits name hfresh hin hname hpresent hlisted
    have hkept : gcPass snapshot listing w.node.pool name = w.node.pool name :=
      h _ (by
        simp only [World.step, hsnapshot, interleaved, hawaits, if_true, step, Option.map_some]
        rfl) name hname
    have hd : IsDigest name := hi.named name (hi.live name hname)
    rw [gcPass_eq_none ((stale_digest_iff hd snapshot).mpr hin) hlisted] at hkept
    exact hpresent hkept.symm
  | _ => trivial

end World

/-- In every run of the backend, the messages and the two loops, no pass removes
the file of an acked asset that has been active since, exactly when no pass finds such
a file that was acked only after the manifest, which does not list it, was drawn up. -/
theorem replicas_spared_iff (digest : Bytes → Digest) (ownIp : Option Str)
    (events : List WorldEvent) :
    Run.AlongSteps (World.step digest ownIp) SparesReplicas World.start events ↔
      Run.Along (World.step digest ownIp) Current World.start events := by
  have hkeep : ∀ w event t, World.Inv w → Current w event →
      World.step digest ownIp w event = some t → t.Inv ∧ SparesReplicas w event t :=
    fun _ _ _ hi hc ht => ⟨World.step_inv hi ht, sparesReplicas_of_current hi hc ht⟩
  have hback : ∀ w event, World.Inv w →
      (∀ t, World.step digest ownIp w event = some t → SparesReplicas w event t) →
      Current w event := fun _ _ => current_of_sparesReplicas
  exact Run.alongSteps_iff_guard hkeep hback World.inv_start

/-- The manifest is drawn up, then an asset is added, fetched and acked, then the
manifest comes. -/
theorem not_replicas_spared_late_manifest :
    ¬ Run.AlongSteps (World.step zeroDigest none) SparesReplicas World.start
      [.ask, .take, .add (zeroDigest []), .issue (zeroDigest []),
        .node (.transfer (.job zeroJob false)),
        .node (.transfer (.opened (some (tmpName zeroJob.sha256)))),
        .node (.transfer (.relayChunk 200 [1])), .node (.transfer .closed),
        .node (.transfer (.renamed true)), .deliver [(zeroJob.sha256, true)]] := by
  intro h
  have hfetched := ((((((((h.2 _ rfl).2 _ rfl).2 _ rfl).2 _ rfl).2 _ rfl).2 _ rfl).2 _ rfl).2 _ rfl)
  have hpass := (hfetched.2 _ rfl).1 _ rfl zeroJob.sha256 (by decide +kernel)
  exact absurd hpass (by decide +kernel)

end HadcdAgent.Storage
