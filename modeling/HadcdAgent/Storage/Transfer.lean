import HadcdAgent.Lib.Json
import HadcdAgent.Lib.Resolve

/-!
# Fetching a file into the storage pool

`Agent._service_transfer_job` and `Agent._fetch_from_peer` (`agent/agent.py`):
a job's file comes from a peer or chunk by chunk through the relay, goes to
`{sha256}.tmp` and is renamed once its hash is right. A job is a sequence of
steps between which other tasks and threads run.
-/

namespace HadcdAgent.Storage

open Lib

abbrev Bytes := List UInt8

/-- `[0-9a-f]{64}`. -/
def IsDigest (s : Str) : Prop := s.length = 64 ∧ ∀ c ∈ s, c ∈ ("0123456789abcdef" : Str)

instance (s : Str) : Decidable (IsDigest s) := inferInstanceAs (Decidable (_ ∧ _))

abbrev Digest := {s : Str // IsDigest s}

/-- The contents of the files in the pool directory, by name. -/
abbrev Pool := Str → Option Bytes

/-- The path `pool_dir / s` may lead to this pool file, or to none. A plain name
leads to the file it names; where another path leads is the host's affair, but to
a file under its last segment. -/
def Leads (s : Str) : Option Str → Prop
  | some name => (PurePath.ofStr s).parts.getLast? = some name
  | none => ¬ IsSegment s

instance (s : Str) : ∀ target, Decidable (Leads s target)
  | some _ => inferInstanceAs (Decidable (_ = _))
  | none => inferInstanceAs (Decidable (¬ _))

def tmpName (sha256 : Str) : Str := sha256 ++ ".tmp".toList

/-! ### Operations on the pool -/

def truncate (pool : Pool) : Option Str → Pool
  | some name => Function.update pool name (some [])
  | none => pool

/-- `fh.write(data)`; a file that has been unlinked is no longer in the pool. -/
def write (pool : Pool) (fh : Option Str) (data : Bytes) : Pool :=
  match fh with
  | some name => Function.update pool name ((pool name).map (· ++ data))
  | none => pool

def unlink (pool : Pool) : Option Str → Pool
  | some name => Function.update pool name none
  | none => pool

def rename (pool : Pool) (source dest : Str) (content : Bytes) : Pool :=
  Function.update (Function.update pool source none) dest (some content)

/-- `(pool_dir / s).exists()`, the host saying whether what is not a pool file exists. -/
def pathExists (pool : Pool) (s : Str) (elsewhere : Bool) : Bool :=
  if IsSegment s then (pool s).isSome else elsewhere

/-! ### The source -/

structure Job where
  id : Json
  sha256 : Str
  chunksTotal : ℤ
  sourceTailscaleIp : Option Str

inductive Via where
  | peer
  | relay

/-- Where the servicing of a job is. `fh` is the pool file that the handle was
opened at, `h` what the hash object has been fed. -/
inductive Phase where
  | idle
  | acking (job : Job) (via : Option Via)
  | peerConnect (job : Job)
  | opening (job : Job) (via : Via)
  | streaming (job : Job) (via : Via) (fh : Option Str) (seq : ℕ) (h : Bytes)
  | checking (job : Job) (via : Via) (h : Bytes)
  | failed (job : Job) (via : Via)
  | reporting (job : Job)

/-- What the dispatcher, the peer, the relay and the file system answer. -/
inductive TransferEvent where
  | job (job : Job) (elsewhere : Bool)
  | peerStatus (status : ℕ)
  | opened (fh : Option Str)
  | peerChunk (chunk : Bytes)
  | relayChunk (status : ℕ) (content : Bytes)
  | closed
  | renamed (ok : Bool)
  | unlinked (target : Option Str)
  | posted
  | raised

/-- The pool and the phase after a step, and the job for which the step sent the
ack POST. -/
structure Outcome where
  pool : Pool
  phase : Phase
  ack : Option Job

def goto (pool : Pool) (phase : Phase) : Outcome := ⟨pool, phase, none⟩

def sendAck (pool : Pool) (job : Job) (via : Option Via) : Outcome :=
  ⟨pool, .acking job via, some job⟩

/-- `source_ip and source_ip != own_ts_ip`. -/
def hasPeer (ownIp : Option Str) (job : Job) : Bool :=
  match job.sourceTailscaleIp with
  | some ip => ip ≠ [] && some ip ≠ ownIp
  | none => false

/-- `job_id[:8]` does not raise. -/
def sliceable : Json → Bool
  | .str _ | .arr _ => true
  | _ => false

def serviceTransferJob (digest : Bytes → Digest) (ownIp : Option Str) (pool : Pool) :
    Phase → TransferEvent → Option Outcome
  | .idle, .job job elsewhere =>
    if pathExists pool job.sha256 elsewhere then some (sendAck pool job none)
    else if hasPeer ownIp job then some (goto pool (.peerConnect job))
    else some (goto pool (.opening job .relay))
  | .acking _ _, .posted => some (goto pool .idle)
  -- the early ack swallows its exception, the others stand inside the `try`
  | .acking _ none, .raised => some (goto pool .idle)
  | .acking job (some via), .raised => some (goto pool (.failed job via))
  | .peerConnect job, .peerStatus status =>
    some (goto pool (.opening job (if status = 200 then .peer else .relay)))
  | .peerConnect job, .raised => some (goto pool (.failed job .peer))
  | .opening job via, .opened fh =>
    if Leads (tmpName job.sha256) fh then
      some (goto (truncate pool fh) (.streaming job via fh 0 []))
    else none
  | .opening job via, .raised => some (goto pool (.failed job via))
  | .streaming job .peer fh seq h, .peerChunk chunk =>
    some (goto (write pool fh chunk) (.streaming job .peer fh (seq + 1) (h ++ chunk)))
  | .streaming job .peer _ _ h, .closed => some (goto pool (.checking job .peer h))
  | .streaming job .relay fh seq h, .relayChunk status content =>
    if seq < job.chunksTotal then
      if status = 200 then
        some (goto (write pool fh content) (.streaming job .relay fh (seq + 1) (h ++ content)))
      else some (goto pool (.failed job .relay))
    else none
  | .streaming job .relay _ seq h, .closed =>
    if seq < job.chunksTotal then none else some (goto pool (.checking job .relay h))
  | .streaming job via _ _ _, .raised => some (goto pool (.failed job via))
  | .checking job via h, .renamed ok =>
    if (digest h).1 = job.sha256 then
      -- `rename` and the call of `client.post`, with no other task in between
      match ok, pool (tmpName job.sha256) with
      | true, some content =>
        some (sendAck (rename pool (tmpName job.sha256) job.sha256 content) job (some via))
      | _, _ => some (goto pool (.failed job via))
    else some (goto pool (.failed job via))
  | .checking job via _, .raised => some (goto pool (.failed job via))
  | .failed job .peer, .unlinked target =>
    if Leads (tmpName job.sha256) target then some (goto (unlink pool target) (.opening job .relay))
    else none
  | .failed job .relay, .unlinked target =>
    if sliceable job.id ∧ Leads (tmpName job.sha256) target then
      some (goto (unlink pool target) (.reporting job))
    else none
  -- an exception of the handler leaves the job to `_transfer_loop`
  | .failed _ _, .raised => some (goto pool .idle)
  | .reporting _, .posted => some (goto pool .idle)
  | .reporting _, .raised => some (goto pool .idle)
  | _, _ => none

/-! ### File names -/

theorem IsDigest.not_mem {s : Str} (h : IsDigest s) {c : Char}
    (hc : c ∉ ("0123456789abcdef" : Str)) : c ∉ s := fun hmem => hc (h.2 c hmem)

theorem IsDigest.isSegment {s : Str} (h : IsDigest s) : IsSegment s where
  nonempty := by
    rintro rfl
    exact absurd h.1 (by decide)
  noSlash := h.not_mem (by decide)
  notDot := by
    rintro rfl
    exact absurd h.1 (by decide)
  notDotDot := by
    rintro rfl
    exact absurd h.1 (by decide)

theorem isSegment_tmpName {s : Str} (h : IsSegment s) : IsSegment (tmpName s) where
  nonempty := by simp [tmpName]
  noSlash := by
    rw [tmpName, List.mem_append, not_or]
    exact ⟨h.noSlash, by decide⟩
  notDot := by
    intro heq
    have hlen := congrArg List.length heq
    simp [tmpName] at hlen
  notDotDot := by
    intro heq
    have hlen := congrArg List.length heq
    simp [tmpName] at hlen

theorem IsDigest.isSegment_tmpName {s : Str} (h : IsDigest s) : IsSegment (tmpName s) :=
  Storage.isSegment_tmpName h.isSegment

theorem leads_iff_of_isSegment {s : Str} (h : IsSegment s) (target : Option Str) :
    Leads s target ↔ target = some s := by
  cases target with
  | none => simp [Leads, h]
  | some name => simp [Leads, PurePath.ofStr_segment h, eq_comm]

theorem splitOn_append_of_not_mem {c : Char} {t : Str} (ht : c ∉ t) (s : Str) :
    ∃ ps p, (s ++ t).splitOn c = ps ++ [p ++ t] := by
  induction s with
  | nil => exact ⟨[], [], by simp [List.splitOn_eq_singleton ht]⟩
  | cons a s ih =>
    obtain ⟨ps, p, h⟩ := ih
    rw [List.cons_append, List.splitOn_cons_eq_if_modifyHead, h]
    split
    · exact ⟨[] :: ps, p, rfl⟩
    · cases ps with
      | nil => exact ⟨[], a :: p, rfl⟩
      | cons q ps => exact ⟨(a :: q) :: ps, p, rfl⟩

theorem suffix_of_leads_tmpName {sha256 name : Str} (h : Leads (tmpName sha256) (some name)) :
    ".tmp".toList <:+ name := by
  obtain ⟨ps, p, hsplit⟩ :=
    splitOn_append_of_not_mem (show '/' ∉ ".tmp".toList by decide) sha256
  have hne : p ++ ".tmp".toList ≠ [] := by simp
  have hdot : p ++ ".tmp".toList ≠ ['.'] := by
    intro heq
    have hlen := congrArg List.length heq
    simp at hlen
  have hlast : (PurePath.ofStr (tmpName sha256)).parts.getLast? = some (p ++ ".tmp".toList) := by
    unfold PurePath.ofStr tmpName
    rw [hsplit, List.filter_append]
    generalize p ++ ".tmp".toList = last at hne hdot
    simp [hne, hdot]
  rw [Leads, hlast] at h
  exact ⟨p, Option.some.inj h⟩

theorem not_isDigest_of_suffix {name : Str} (h : ".tmp".toList <:+ name) : ¬ IsDigest name :=
  fun hd => hd.not_mem (show '.' ∉ ("0123456789abcdef" : Str) by decide) (h.subset (by decide))

theorem not_isDigest_tmpName (sha256 : Str) : ¬ IsDigest (tmpName sha256) :=
  not_isDigest_of_suffix ⟨sha256, rfl⟩

/-! ### What a step keeps -/

/-- Every file named by a digest has the content of that digest. -/
def Intact (digest : Bytes → Digest) (pool : Pool) : Prop :=
  ∀ name, IsDigest name → ∀ content, pool name = some content → (digest content).1 = name

/-- From `pool` to `pool'`, the files that came under the name of a digest are
filed under their own. -/
def Filed (digest : Bytes → Digest) (pool pool' : Pool) : Prop :=
  ∀ name, IsDigest name → ∀ content, pool' name = some content →
    pool name = some content ∨ (digest content).1 = name

def Held (digest : Bytes → Digest) (pool : Pool) (sha256 : Str) : Prop :=
  ∃ content, pool sha256 = some content ∧ (digest content).1 = sha256

/-- While a file is being fetched, the temporary file holds what was hashed, unless
it has been removed. -/
def Phase.Staged (pool : Pool) : Phase → Prop
  | .streaming job _ fh _ h => Leads (tmpName job.sha256) fh ∧
    (IsDigest job.sha256 → ∀ content, pool (tmpName job.sha256) = some content → content = h)
  | .checking job _ h =>
    IsDigest job.sha256 → ∀ content, pool (tmpName job.sha256) = some content → content = h
  | _ => True

theorem Intact.filed {digest : Bytes → Digest} {pool pool' : Pool} (h : Intact digest pool)
    (hf : Filed digest pool pool') : Intact digest pool' := by
  intro name hname content hcontent
  rcases hf name hname content hcontent with hold | hnew
  · exact h name hname content hold
  · exact hnew

theorem filed_refl (digest : Bytes → Digest) (pool : Pool) : Filed digest pool pool :=
  fun _ _ _ h => Or.inl h

theorem filed_of_eq_on {digest : Bytes → Digest} {pool pool' : Pool}
    (h : ∀ name, IsDigest name → pool' name = pool name) : Filed digest pool pool' :=
  fun name hname _ hcontent => Or.inl (h name hname ▸ hcontent)

theorem ne_of_leads_tmpName {sha256 name other : Str}
    (h : Leads (tmpName sha256) (some name)) (hother : IsDigest other) : other ≠ name := by
  rintro rfl
  exact not_isDigest_of_suffix (suffix_of_leads_tmpName h) hother

section Operations

variable {digest : Bytes → Digest} {pool : Pool} {sha256 : Str} {target : Option Str}

theorem filed_update {name : Str} (h : Leads (tmpName sha256) (some name))
    (content : Option Bytes) : Filed digest pool (Function.update pool name content) := by
  apply filed_of_eq_on
  intro other hother
  exact Function.update_of_ne (ne_of_leads_tmpName h hother) _ _

theorem filed_truncate (h : Leads (tmpName sha256) target) :
    Filed digest pool (truncate pool target) := by
  cases target with
  | none => exact filed_refl digest pool
  | some name => exact filed_update h _

theorem filed_write (h : Leads (tmpName sha256) target) (data : Bytes) :
    Filed digest pool (write pool target data) := by
  cases target with
  | none => exact filed_refl digest pool
  | some name => exact filed_update h _

theorem filed_unlink (h : Leads (tmpName sha256) target) :
    Filed digest pool (unlink pool target) := by
  cases target with
  | none => exact filed_refl digest pool
  | some name => exact filed_update h _

theorem rename_dest (pool : Pool) (source dest : Str) (content : Bytes) :
    rename pool source dest content dest = some content := Function.update_self ..

theorem filed_rename {content : Bytes} (h : (digest content).1 = sha256) :
    Filed digest pool (rename pool (tmpName sha256) sha256 content) := by
  intro name hname c hc
  by_cases hdest : name = sha256
  · subst hdest
    rw [rename_dest] at hc
    cases hc
    exact Or.inr h
  · rw [rename, Function.update_of_ne hdest] at hc
    have hne : name ≠ tmpName sha256 := by
      rintro rfl
      exact not_isDigest_tmpName sha256 hname
    rw [Function.update_of_ne hne] at hc
    exact Or.inl hc

theorem eq_tmpName_of_leads (hd : IsDigest sha256) (h : Leads (tmpName sha256) target) :
    target = some (tmpName sha256) :=
  (leads_iff_of_isSegment hd.isSegment_tmpName target).mp h

theorem truncate_tmpName (h : Leads (tmpName sha256) target) (hd : IsDigest sha256)
    {content : Bytes} (hc : truncate pool target (tmpName sha256) = some content) :
    content = [] := by
  cases eq_tmpName_of_leads hd h
  rw [truncate, Function.update_self] at hc
  exact (Option.some.inj hc).symm

theorem write_tmpName (h : Leads (tmpName sha256) target) (hd : IsDigest sha256)
    {hashed data content : Bytes}
    (hold : ∀ c, pool (tmpName sha256) = some c → c = hashed)
    (hc : write pool target data (tmpName sha256) = some content) : content = hashed ++ data := by
  cases eq_tmpName_of_leads hd h
  rw [write, Function.update_self, Option.map_eq_some_iff] at hc
  obtain ⟨c, hpool, rfl⟩ := hc
  rw [hold c hpool]

end Operations

theorem Phase.Staged.of_removed {pool pool' : Pool} {phase : Phase} (h : phase.Staged pool)
    (hsub : ∀ name content, pool' name = some content → pool name = some content) :
    phase.Staged pool' := by
  cases phase with
  | streaming => exact ⟨h.1, fun hd content hc => h.2 hd content (hsub _ _ hc)⟩
  | checking => exact fun hd content hc => h hd content (hsub _ _ hc)
  | _ => trivial

/-- What a step may do, by what it does to the pool. -/
inductive Moved (digest : Bytes → Digest) (pool : Pool) :
    Phase → TransferEvent → Outcome → Prop
  | quiet {phase event phase'} (h : ∀ p, phase'.Staged p) :
    Moved digest pool phase event (goto pool phase')
  | present {job elsewhere} (h : pathExists pool job.sha256 elsewhere = true) :
    Moved digest pool .idle (.job job elsewhere) (sendAck pool job none)
  | opened {job via fh} (h : Leads (tmpName job.sha256) fh) :
    Moved digest pool (.opening job via) (.opened fh)
      (goto (truncate pool fh) (.streaming job via fh 0 []))
  | wrote {job via fh seq h event} (data : Bytes) :
    Moved digest pool (.streaming job via fh seq h) event
      (goto (write pool fh data) (.streaming job via fh (seq + 1) (h ++ data)))
  | closed {job via fh seq h} :
    Moved digest pool (.streaming job via fh seq h) .closed (goto pool (.checking job via h))
  | renamed {job via h content} (hash : (digest h).1 = job.sha256)
      (staged : pool (tmpName job.sha256) = some content) :
    Moved digest pool (.checking job via h) (.renamed true)
      (sendAck (rename pool (tmpName job.sha256) job.sha256 content) job (some via))
  | unlinked {job via target phase'} (h : Leads (tmpName job.sha256) target)
      (h' : ∀ p, phase'.Staged p) :
    Moved digest pool (.failed job via) (.unlinked target) (goto (unlink pool target) phase')

section Step

variable {digest : Bytes → Digest} {ownIp : Option Str} {pool : Pool} {phase : Phase}
  {event : TransferEvent} {out : Outcome}

theorem moved_of_step (h : serviceTransferJob digest ownIp pool phase event = some out) :
    Moved digest pool phase event out := by
  unfold serviceTransferJob at h
  split at h
  case h_1 job elsewhere =>
    split_ifs at h with hexists hpeer
    · cases h
      exact .present hexists
    · cases h
      exact .quiet fun _ => trivial
    · cases h
      exact .quiet fun _ => trivial
  case h_7 job via fh =>
    split_ifs at h with hleads
    cases h
    exact .opened hleads
  case h_9 =>
    cases h
    exact .wrote _
  case h_10 =>
    cases h
    exact .closed
  case h_11 =>
    split_ifs at h with hseq hstatus
    · cases h
      exact .wrote _
    · cases h
      exact .quiet fun _ => trivial
  case h_12 =>
    split_ifs at h with hseq
    cases h
    exact .closed
  case h_14 job via hashed ok =>
    split_ifs at h with hhash
    · split at h
      case h_1 content hstaged =>
        cases h
        exact .renamed hhash hstaged
      case h_2 =>
        cases h
        exact .quiet fun _ => trivial
    · cases h
      exact .quiet fun _ => trivial
  case h_16 =>
    split_ifs at h with hleads
    cases h
    exact .unlinked hleads fun _ => trivial
  case h_17 =>
    split_ifs at h with hleads
    cases h
    exact .unlinked hleads.2 fun _ => trivial
  case h_21 => cases h
  all_goals
    cases h
    exact .quiet fun _ => trivial

theorem serviceTransferJob_spec
    (h : serviceTransferJob digest ownIp pool phase event = some out) (hs : phase.Staged pool) :
    Filed digest pool out.pool ∧ out.phase.Staged out.pool := by
  cases moved_of_step h with
  | quiet hquiet => exact ⟨filed_refl digest pool, hquiet pool⟩
  | present => exact ⟨filed_refl digest pool, trivial⟩
  | opened hleads =>
    exact ⟨filed_truncate hleads, hleads, fun hd _ hc => truncate_tmpName hleads hd hc⟩
  | wrote data =>
    exact ⟨filed_write hs.1 data, hs.1, fun hd _ hc => write_tmpName hs.1 hd (hs.2 hd) hc⟩
  | closed => exact ⟨filed_refl digest pool, hs.2⟩
  | @renamed job via hashed content hhash hstaged =>
    have hd : IsDigest job.sha256 := hhash ▸ (digest hashed).2
    cases hs hd content hstaged
    exact ⟨filed_rename hhash, trivial⟩
  | unlinked hleads hquiet => exact ⟨filed_unlink hleads, hquiet _⟩

/-- An ack POST is sent for a job whose path exists, or for a file just stored. -/
theorem ack_spec {job : Job}
    (h : serviceTransferJob digest ownIp pool phase event = some out) (hs : phase.Staged pool)
    (hack : out.ack = some job) :
    (∃ elsewhere, phase = .idle ∧ event = .job job elsewhere ∧
      pathExists pool job.sha256 elsewhere = true ∧ out.pool = pool) ∨
    Held digest out.pool job.sha256 := by
  cases moved_of_step h with
  | present hexists =>
    cases hack
    exact Or.inl ⟨_, rfl, rfl, hexists, rfl⟩
  | @renamed job via hashed content hhash hstaged =>
    cases hack
    have hd : IsDigest job.sha256 := hhash ▸ (digest hashed).2
    cases hs hd content hstaged
    exact Or.inr ⟨hashed, rename_dest .., hhash⟩
  | _ => cases hack

theorem ack_of_pathExists {job : Job} {elsewhere : Bool}
    (h : serviceTransferJob digest ownIp pool phase (.job job elsewhere) = some out)
    (hexists : pathExists pool job.sha256 elsewhere = true) : out.ack = some job := by
  cases phase with
  | idle =>
    simp only [serviceTransferJob, hexists, if_true] at h
    cases h
    rfl
  | streaming job via => cases via <;> cases h
  | failed job via => cases via <;> cases h
  | _ => cases h

end Step

end HadcdAgent.Storage
