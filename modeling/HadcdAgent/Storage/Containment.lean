import HadcdAgent.Lib.Run
import HadcdAgent.Storage.Pool

/-!
# Where a transfer reaches

The paths that `_service_transfer_job` and `_fetch_from_peer` (`agent/agent.py`)
open for writing, rename or unlink, against the pool directory.
-/

namespace HadcdAgent.Storage

open Lib

/-! ### The paths of a job -/

def destPath (poolDir : PurePath) (sha256 : Str) : PurePath := poolDir.join sha256

def tmpPath (poolDir : PurePath) (sha256 : Str) : PurePath := poolDir.join (tmpName sha256)

/-- The paths that a step opens for writing, renames or unlinks, tried ones included. -/
def touches (digest : Bytes → Digest) (poolDir : PurePath) : Phase → TransferEvent → List PurePath
  | .opening job _, _ => [tmpPath poolDir job.sha256]
  | .checking job _ h, .renamed _ =>
    if (digest h).1 = job.sha256 then
      [tmpPath poolDir job.sha256, destPath poolDir job.sha256]
    else []
  | .failed job .peer, _ => [tmpPath poolDir job.sha256]
  | .failed job .relay, _ => if sliceable job.id then [tmpPath poolDir job.sha256] else []
  | _, _ => []

/-- The directories that a path goes through, resolved lexically from `cwd`. -/
def locate (cwd : List Str) (p : PurePath) : List Str :=
  p.parts.foldl PurePath.walk (if p.root = [] then cwd else [])

def Inside (cwd : List Str) (poolDir p : PurePath) : Prop :=
  locate cwd poolDir <+: locate cwd p ∧ locate cwd poolDir ≠ locate cwd p

instance (cwd : List Str) (poolDir p : PurePath) : Decidable (Inside cwd poolDir p) :=
  inferInstanceAs (Decidable (_ ∧ _))

/-! ### Servicing one job -/

/-- A step of the servicing; the others who use the pool leave it as they like
between two steps. -/
def service (digest : Bytes → Digest) (ownIp : Option Str) (phase : Phase)
    (i : Pool × TransferEvent) : Option Phase :=
  (serviceTransferJob digest ownIp i.1 phase i.2).map Outcome.phase

def TransferEvent.isJob : TransferEvent → Bool
  | .job _ _ => true
  | _ => false

def Contained (digest : Bytes → Digest) (cwd : List Str) (poolDir : PurePath) (phase : Phase)
    (i : Pool × TransferEvent) : Prop :=
  ∀ p ∈ touches digest poolDir phase i.2, Inside cwd poolDir p

def Phase.job : Phase → Option Job
  | .idle => none
  | .acking job _ | .peerConnect job | .opening job _ | .streaming job _ _ _ _ | .checking job _ _
  | .failed job _ | .reporting job => some job

/-! ### Plain names stay in the pool -/

theorem locate_join {s : Str} (h : IsSegment s) (cwd : List Str) (poolDir : PurePath) :
    locate cwd (poolDir.join s) = locate cwd poolDir ++ [s] := by
  rw [PurePath.join_segment poolDir h]
  simp only [locate, List.foldl_append, List.foldl_cons, List.foldl_nil, PurePath.walk,
    if_neg h.notDotDot]

theorem inside_join {s : Str} (h : IsSegment s) (cwd : List Str) (poolDir : PurePath) :
    Inside cwd poolDir (poolDir.join s) := by
  rw [Inside, locate_join h]
  exact ⟨List.prefix_append _ _, by simp⟩

/-! ### Containment -/

section Step

variable {digest : Bytes → Digest} {ownIp : Option Str} {cwd : List Str} {poolDir : PurePath}
  {phase phase' : Phase} {i : Pool × TransferEvent} {job : Job}

theorem job_of_service (h : service digest ownIp phase i = some phase')
    (hjob : i.2.isJob = false) : phase' = .idle ∨ phase'.job = phase.job := by
  obtain ⟨out, hout, rfl⟩ := Option.map_eq_some_iff.mp h
  unfold serviceTransferJob at hout
  split at hout
  case h_1 heq =>
    rw [heq] at hjob
    cases hjob
  case h_2 | h_3 | h_18 | h_19 | h_20 =>
    cases hout
    exact Or.inl rfl
  case h_7 | h_12 | h_16 | h_17 =>
    split_ifs at hout
    cases hout
    exact Or.inr rfl
  case h_11 =>
    split_ifs at hout
    all_goals
      cases hout
      exact Or.inr rfl
  case h_14 =>
    split_ifs at hout
    · split at hout
      all_goals
        cases hout
        exact Or.inr rfl
    · cases hout
      exact Or.inr rfl
  case h_21 => cases hout
  all_goals
    cases hout
    exact Or.inr rfl

theorem contained_of_inside (h : Inside cwd poolDir (tmpPath poolDir job.sha256))
    (hjob : phase = .idle ∨ phase.job = some job) : Contained digest cwd poolDir phase i := by
  intro p hp
  have htmp : ∀ job', phase.job = some job' → Inside cwd poolDir (tmpPath poolDir job'.sha256) := by
    intro job' hjob'
    rcases hjob with rfl | hjob
    · cases hjob'
    · cases hjob.symm.trans hjob'
      exact h
  cases phase with
  | opening job' via =>
    cases List.mem_singleton.mp hp
    exact htmp job' rfl
  | checking job' via hashed =>
    cases hevent : i.2 with
    | renamed ok =>
      rw [hevent, touches] at hp
      split_ifs at hp with hhash
      · rcases List.mem_pair.mp hp with rfl | rfl
        · exact htmp job' rfl
        · have hd : IsDigest job'.sha256 := hhash ▸ (digest hashed).2
          exact inside_join hd.isSegment cwd poolDir
      · cases hp
    | _ =>
      rw [hevent] at hp
      cases hp
  | failed job' via =>
    cases via with
    | peer =>
      cases List.mem_singleton.mp hp
      exact htmp job' rfl
    | relay =>
      rw [touches] at hp
      split_ifs at hp
      · cases List.mem_singleton.mp hp
        exact htmp job' rfl
      · cases hp
  | _ => cases hp

end Step

theorem service_idle (digest : Bytes → Digest) (ownIp : Option Str) {i : Pool × TransferEvent}
    (h : i.2.isJob = false) : service digest ownIp .idle i = none := by
  obtain ⟨pool, event⟩ := i
  cases event with
  | job => cases h
  | _ => rfl

theorem service_acking {digest : Bytes → Digest} {ownIp : Option Str} {job : Job}
    {i : Pool × TransferEvent} {phase : Phase}
    (h : service digest ownIp (.acking job none) i = some phase) : phase = .idle := by
  obtain ⟨pool, event⟩ := i
  cases event with
  | posted | raised =>
    cases h
    rfl
  | _ => cases h

/-- The steps of the servicing of one job, of a file at a path that exists or not. -/
theorem service_job {digest : Bytes → Digest} {ownIp : Option Str} {pool : Pool} {job : Job}
    {elsewhere : Bool} {phase : Phase}
    (h : service digest ownIp .idle (pool, .job job elsewhere) = some phase) :
    (pathExists pool job.sha256 elsewhere = true → phase = .acking job none) ∧
    (pathExists pool job.sha256 elsewhere = false →
      phase = .peerConnect job ∨ phase = .opening job .relay) := by
  simp only [service, serviceTransferJob] at h
  split_ifs at h with hexists hpeer
  · cases h
    exact ⟨fun _ => rfl, fun hnot => by rw [hexists] at hnot; cases hnot⟩
  · cases h
    exact ⟨fun hyes => absurd hyes hexists, fun _ => Or.inl rfl⟩
  · cases h
    exact ⟨fun hyes => absurd hyes hexists, fun _ => Or.inr rfl⟩

theorem along_acking (digest : Bytes → Digest) (ownIp : Option Str) (cwd : List Str)
    (poolDir : PurePath) (job : Job) {inputs : List (Pool × TransferEvent)}
    (hjobs : ∀ i ∈ inputs, i.2.isJob = false) {phase : Phase}
    (hphase : phase = .idle ∨ phase = .acking job none) :
    Run.Along (service digest ownIp) (Contained digest cwd poolDir) phase inputs := by
  have hstays : ∀ phase (i : Pool × TransferEvent) phase',
      (phase = .idle ∨ phase = .acking job none) → i.2.isJob = false →
      service digest ownIp phase i = some phase' →
      phase' = .idle ∨ phase' = .acking job none := by
    rintro _ i phase' (rfl | rfl) hi hstep
    · rw [service_idle digest ownIp hi] at hstep
      cases hstep
    · exact Or.inl (service_acking hstep)
  refine Run.along_of_invariant hstays ?_ hphase
    (Run.along_of_forall _ fun i hi _ => hjobs i hi)
  rintro _ i (rfl | rfl) _ p hp <;> cases hp

theorem along_inside (digest : Bytes → Digest) (ownIp : Option Str) {cwd : List Str}
    {poolDir : PurePath} {job : Job} (h : Inside cwd poolDir (tmpPath poolDir job.sha256))
    {inputs : List (Pool × TransferEvent)} (hjobs : ∀ i ∈ inputs, i.2.isJob = false)
    {phase : Phase} (hphase : phase = .idle ∨ phase.job = some job) :
    Run.Along (service digest ownIp) (Contained digest cwd poolDir) phase inputs := by
  have hstays : ∀ phase (i : Pool × TransferEvent) phase',
      (phase = .idle ∨ phase.job = some job) → i.2.isJob = false →
      service digest ownIp phase i = some phase' →
      phase' = .idle ∨ phase'.job = some job := by
    intro phase i phase' hphase hi hstep
    rcases job_of_service hstep hi with hidle | hsame
    · exact Or.inl hidle
    · rcases hphase with rfl | hphase
      · rw [service_idle digest ownIp hi] at hstep
        cases hstep
      · exact Or.inr (hsame.trans hphase)
  exact Run.along_of_invariant hstays (fun _ _ hphase _ => contained_of_inside h hphase) hphase
    (Run.along_of_forall _ fun i hi _ => hjobs i hi)

/-- Whatever the peer, the relay and the file system answer, what a job touches lies
inside the pool directory: exactly when its path exists, so that nothing is fetched,
or its temporary path lies inside. -/
theorem contained_iff (digest : Bytes → Digest) (ownIp : Option Str) (cwd : List Str)
    (poolDir : PurePath) (pool : Pool) (job : Job) (elsewhere : Bool) :
    (∀ inputs : List (Pool × TransferEvent), (∀ i ∈ inputs, i.2.isJob = false) →
      Run.Along (service digest ownIp) (Contained digest cwd poolDir) .idle
        ((pool, .job job elsewhere) :: inputs)) ↔
    pathExists pool job.sha256 elsewhere = true ∨
      Inside cwd poolDir (tmpPath poolDir job.sha256) := by
  constructor
  · intro hall
    by_contra hnot
    rw [not_or, Bool.not_eq_true] at hnot
    obtain ⟨hexists, houtside⟩ := hnot
    -- the peer cannot be reached, or the relay's file cannot be opened
    have hrun := (hall [(pool, .raised), (pool, .raised)] (by simp [TransferEvent.isJob])).2
    by_cases hpeer : hasPeer ownIp job = true
    · have hstep : service digest ownIp .idle (pool, .job job elsewhere) =
          some (.peerConnect job) := by
        simp [service, serviceTransferJob, hexists, hpeer, goto]
      have htouch := ((hrun _ hstep).2 _ rfl).1
      exact houtside (htouch _ (List.mem_singleton.mpr rfl))
    · have hstep : service digest ownIp .idle (pool, .job job elsewhere) =
          some (.opening job .relay) := by
        simp [service, serviceTransferJob, hexists, hpeer, goto]
      have htouch := (hrun _ hstep).1
      exact houtside (htouch _ (List.mem_singleton.mpr rfl))
  · intro h inputs hjobs
    refine ⟨fun p hp => absurd hp (List.not_mem_nil), ?_⟩
    intro phase hstep
    obtain ⟨hthere, habsent⟩ := service_job hstep
    cases hexists : pathExists pool job.sha256 elsewhere with
    | true => exact along_acking digest ownIp cwd poolDir job hjobs (Or.inr (hthere hexists))
    | false =>
      have hinside : Inside cwd poolDir (tmpPath poolDir job.sha256) := by
        rcases h with h | h
        · rw [hexists] at h
          cases h
        · exact h
      refine along_inside digest ownIp hinside hjobs (Or.inr ?_)
      rcases habsent hexists with hphase | hphase
      · rw [hphase]
        rfl
      · rw [hphase]
        rfl

/-- A hash that climbs out of the pool: the relay's file is opened beside it. -/
theorem not_contained_parent :
    ¬ Run.Along (service zeroDigest none)
      (Contained zeroDigest [] ⟨"/".toList, ["data".toList, "pool".toList]⟩) .idle
      [(fun _ => none, .job ⟨.str "job".toList, "../x".toList, 1, none⟩ false),
        (fun _ => none, .raised)] := by
  intro h
  have hopening := (h.2 _ rfl).1
  have htouch := hopening _ (List.mem_singleton.mpr rfl)
  exact absurd htouch (by decide)

end HadcdAgent.Storage
