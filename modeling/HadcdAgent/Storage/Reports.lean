import HadcdAgent.Storage.Collection
import HadcdAgent.Storage.Containment

/-!
# Reporting a failed transfer

The error POST of `Agent._service_transfer_job` (`agent/agent.py`) against the pool at the
moment when it is sent. The ack POSTs stand in the same `try` as the downloads.
-/

namespace HadcdAgent.Storage

open Lib

/-! ### The servicing with its history -/

/-- `refused` tells that an ack POST for the file that this job has fetched has raised. -/
structure Servicing where
  pool : Pool
  phase : Phase
  refused : Bool

def refusesAck : Phase → TransferEvent → Bool
  | .acking _ (some _), .raised => true
  | _, _ => false

def history (refused : Bool) (phase : Phase) (e : TransferEvent) : Bool :=
  !e.isJob && (refused || refusesAck phase e)

def servicingStep (digest : Bytes → Digest) (ownIp : Option Str) (s : Servicing)
    (e : TransferEvent) : Option Servicing :=
  (serviceTransferJob digest ownIp s.pool s.phase e).map fun out =>
    ⟨out.pool, out.phase, history s.refused s.phase e⟩

def idleWith (pool : Pool) : Servicing := ⟨pool, .idle, false⟩

/-- The job's file is in the pool directory. -/
def inPool (pool : Pool) (job : Job) : Bool := pathExists pool job.sha256 false

/-- A step that sends the error POST for a job leaves its file out of the pool. -/
def Truthful (digest : Bytes → Digest) (ownIp : Option Str) (s : Servicing) (e : TransferEvent) :
    Prop :=
  ∀ s' job, servicingStep digest ownIp s e = some s' → s'.phase = .reporting job →
    inPool s'.pool job = false

/-- The open, a chunk, the hash, the rename or the ack POST of the relay fails. -/
def relayFails (digest : Bytes → Digest) (s : Servicing) (e : TransferEvent) : Bool :=
  match s.phase, e with
  | .opening _ .relay, .raised | .streaming _ .relay _ _ _, .raised
  | .checking _ .relay _, .raised | .acking _ (some .relay), .raised => true
  | .streaming job .relay _ seq _, .relayChunk status _ => seq < job.chunksTotal && status ≠ 200
  | .checking job .relay h, .renamed ok =>
    !((digest h).1 = job.sha256 && ok && (s.pool (tmpName job.sha256)).isSome)
  | _, _ => false

/-- Once an ack POST for the fetched file has raised, the relay does not fail; when it is
the relay's own, that is a failure of the relay. -/
def AcksReach (digest : Bytes → Digest) (s : Servicing) (e : TransferEvent) : Prop :=
  history s.refused s.phase e = true → relayFails digest s e = false

/-- The handler of a failed download logs it and unlinks the temporary file. -/
def Cleans (s : Servicing) (e : TransferEvent) : Prop :=
  ∀ job via, s.phase = .failed job via → e ≠ .raised

/-! ### The job's file -/

theorem ne_tmpName (s : Str) : s ≠ tmpName s := by
  intro heq
  have hlen := congrArg List.length heq
  simp [tmpName] at hlen

theorem inPool_congr {pool pool' : Pool} {job : Job}
    (h : IsSegment job.sha256 → pool' job.sha256 = pool job.sha256) :
    inPool pool' job = inPool pool job := by
  rw [inPool, inPool, pathExists, pathExists]
  split_ifs with hseg
  · rw [h hseg]
  · rfl

section Operations

variable {pool : Pool} {job : Job} {target : Option Str} (h : Leads (tmpName job.sha256) target)

include h

theorem inPool_truncate : inPool (truncate pool target) job = inPool pool job := by
  refine inPool_congr fun hseg => ?_
  rw [(leads_iff_of_isSegment (isSegment_tmpName hseg) target).mp h]
  exact Function.update_of_ne (ne_tmpName _) ..

theorem inPool_write (data : Bytes) : inPool (write pool target data) job = inPool pool job := by
  refine inPool_congr fun hseg => ?_
  rw [(leads_iff_of_isSegment (isSegment_tmpName hseg) target).mp h]
  exact Function.update_of_ne (ne_tmpName _) ..

theorem inPool_unlink : inPool (unlink pool target) job = inPool pool job := by
  refine inPool_congr fun hseg => ?_
  rw [(leads_iff_of_isSegment (isSegment_tmpName hseg) target).mp h]
  exact Function.update_of_ne (ne_tmpName _) ..

end Operations

theorem inPool_of_not_pathExists {pool : Pool} {job : Job} {elsewhere : Bool}
    (h : ¬ pathExists pool job.sha256 elsewhere = true) : inPool pool job = false := by
  rw [pathExists] at h
  rw [inPool, pathExists]
  split_ifs at h ⊢ with hseg
  · exact Bool.eq_false_of_not_eq_true h
  · rfl

theorem inPool_rename {pool : Pool} {job : Job} (h : IsDigest job.sha256) (content : Bytes) :
    inPool (rename pool (tmpName job.sha256) job.sha256 content) job = true := by
  rw [inPool, pathExists, if_pos h.isSegment, rename_dest]
  rfl

/-! ### The history -/

/-- While a job is serviced, its file is in the pool just when an ack POST for it was refused,
or is on its way. -/
def Phase.Told (pool : Pool) (refused : Bool) : Phase → Prop
  | .idle | .reporting _ | .acking _ none => True
  | .acking job (some _) => inPool pool job = true
  | .peerConnect job | .opening job _ | .checking job _ _ | .failed job _ =>
    inPool pool job = refused
  | .streaming job _ fh _ _ => Leads (tmpName job.sha256) fh ∧ inPool pool job = refused

theorem history_eq_refused {phase : Phase} {e : TransferEvent} (hjob : e.isJob = false)
    (hack : refusesAck phase e = false) (refused : Bool) : history refused phase e = refused := by
  rw [history, hjob, hack, Bool.or_false]
  rfl

section Step

variable {digest : Bytes → Digest} {ownIp : Option Str} {pool : Pool} {phase : Phase}
  {e : TransferEvent} {refused : Bool} {out : Outcome}

theorem told_step (h : serviceTransferJob digest ownIp pool phase e = some out)
    (hs : phase.Told pool refused) : out.phase.Told out.pool (history refused phase e) := by
  unfold serviceTransferJob at h
  split at h
  case h_1 job elsewhere =>
    split_ifs at h with hexists hpeer
    · cases h
      trivial
    · cases h
      exact inPool_of_not_pathExists hexists
    · cases h
      exact inPool_of_not_pathExists hexists
  case h_2 | h_3 | h_18 | h_19 | h_20 =>
    cases h
    trivial
  case h_4 job via =>
    -- the refused ack POST
    cases h
    have hhistory : history refused (.acking job (some via)) .raised = true := by
      rw [history, refusesAck, Bool.or_true]
      rfl
    exact hs.trans hhistory.symm
  case h_5 | h_6 | h_8 | h_15 =>
    cases h
    exact hs.trans (history_eq_refused rfl rfl refused).symm
  case h_7 job via fh =>
    split_ifs at h with hleads
    cases h
    rw [history_eq_refused rfl rfl]
    exact ⟨hleads, (inPool_truncate hleads).trans hs⟩
  case h_9 job fh seq hashed chunk =>
    cases h
    rw [history_eq_refused rfl rfl]
    exact ⟨hs.1, (inPool_write hs.1 chunk).trans hs.2⟩
  case h_10 | h_13 =>
    cases h
    exact hs.2.trans (history_eq_refused rfl rfl refused).symm
  case h_11 job fh seq hashed status content =>
    rw [history_eq_refused rfl rfl]
    split_ifs at h with hseq hstatus
    · cases h
      exact ⟨hs.1, (inPool_write hs.1 content).trans hs.2⟩
    · cases h
      exact hs.2
  case h_12 =>
    split_ifs at h
    cases h
    exact hs.2.trans (history_eq_refused rfl rfl refused).symm
  case h_14 job via hashed ok =>
    rw [history_eq_refused rfl rfl]
    split_ifs at h with hhash
    · split at h
      · cases h
        exact inPool_rename (hhash ▸ (digest hashed).2) _
      · cases h
        exact hs
    · cases h
      exact hs
  case h_16 job target =>
    split_ifs at h with hleads
    cases h
    rw [history_eq_refused rfl rfl]
    exact (inPool_unlink hleads).trans hs
  case h_17 =>
    split_ifs at h
    cases h
    trivial
  case h_21 => cases h

theorem failed_relay_iff (h : serviceTransferJob digest ownIp pool phase e = some out) :
    (∃ job, out.phase = .failed job .relay) ↔ relayFails digest ⟨pool, phase, refused⟩ e = true := by
  unfold serviceTransferJob at h
  split at h
  case h_4 job via | h_8 job via | h_13 job via _ _ _ | h_15 job via _ =>
    cases h
    cases via with
    | peer => simp [relayFails, goto]
    | relay => simp [relayFails, goto]
  case h_1 | h_7 | h_12 | h_16 | h_17 =>
    split_ifs at h
    all_goals
      cases h
      simp [relayFails, goto, sendAck]
  case h_11 =>
    split_ifs at h with hseq hstatus
    · cases h
      simp [relayFails, goto, hstatus]
    · cases h
      simp [relayFails, goto, hseq, hstatus]
  case h_14 job via hashed ok =>
    split_ifs at h with hhash
    · cases ok with
      | false =>
        cases h
        cases via <;> simp [relayFails, goto]
      | true =>
        cases hstaged : pool (tmpName job.sha256) with
        | none =>
          rw [hstaged] at h
          cases h
          cases via <;> simp [relayFails, goto, hstaged]
        | some content =>
          rw [hstaged] at h
          cases h
          cases via <;> simp [relayFails, sendAck, hhash, hstaged]
    · cases h
      cases via <;> simp [relayFails, goto, hhash]
  case h_21 => cases h
  all_goals
    cases h
    simp [relayFails, goto]

theorem reporting_spec {job : Job} (h : serviceTransferJob digest ownIp pool phase e = some out)
    (hreport : out.phase = .reporting job) :
    phase = .failed job .relay ∧ ∃ target, e = .unlinked target ∧
      inPool out.pool job = inPool pool job := by
  unfold serviceTransferJob at h
  split at h
  case h_17 job' target =>
    split_ifs at h with hleads
    cases h
    cases hreport
    exact ⟨rfl, target, rfl, inPool_unlink hleads.2⟩
  case h_1 | h_7 | h_11 | h_12 | h_16 =>
    split_ifs at h
    all_goals
      cases h
      cases hreport
  case h_14 =>
    split_ifs at h
    · split at h
      all_goals
        cases h
        cases hreport
    · cases h
      cases hreport
  case h_21 => cases h
  all_goals
    cases h
    cases hreport

theorem step_failed_relay {job : Job}
    (h : serviceTransferJob digest ownIp pool (.failed job .relay) e = some out)
    (hclean : e ≠ .raised) : out.phase = .reporting job := by
  cases e with
  | unlinked target =>
    dsimp only [serviceTransferJob] at h
    split_ifs at h
    cases h
    rfl
  | raised => exact absurd rfl hclean
  | _ => cases h

end Step

/-! ### The jobs of a run -/

section Runs

variable {digest : Bytes → Digest} {ownIp : Option Str} {s s' : Servicing} {e : TransferEvent}

/-- What holds in between: a job that comes to the relay's handler has no refused ack. -/
structure Accounted (s : Servicing) : Prop where
  told : s.phase.Told s.pool s.refused
  failed : ∀ job, s.phase = .failed job .relay → s.refused = false

theorem accounted_step (h : Accounted s) (hg : AcksReach digest s e)
    (hstep : servicingStep digest ownIp s e = some s') : Accounted s' := by
  obtain ⟨out, hout, rfl⟩ := Option.map_eq_some_iff.mp hstep
  refine ⟨told_step hout h.told, fun job hfailed => ?_⟩
  have hfails : relayFails digest s e = true := (failed_relay_iff hout).mp ⟨job, hfailed⟩
  refine Bool.eq_false_of_not_eq_true fun hhistory => ?_
  have hspared := hg hhistory
  rw [hfails] at hspared
  cases hspared

theorem truthful_of_accounted (h : Accounted s) : Truthful digest ownIp s e := by
  intro s' job hstep hreport
  obtain ⟨out, hout, rfl⟩ := Option.map_eq_some_iff.mp hstep
  obtain ⟨hphase, target, -, hpool⟩ := reporting_spec hout hreport
  have htold := h.told
  rw [hphase] at htold
  have hin : inPool s.pool job = s.refused := htold
  dsimp only
  rw [hpool, hin, h.failed job hphase]

theorem acksReach_of_truthful {events : List TransferEvent} (htold : s.phase.Told s.pool s.refused)
    (hrun : Run.exec (servicingStep digest ownIp) s events = some s') (hidle : s'.phase = .idle)
    (hclean : Run.Along (servicingStep digest ownIp) Cleans s events)
    (htruthful : Run.Along (servicingStep digest ownIp) (Truthful digest ownIp) s events) :
    Run.Along (servicingStep digest ownIp) (AcksReach digest) s events := by
  induction events generalizing s with
  | nil => trivial
  | cons e events ih =>
    obtain ⟨t, ht, hrun⟩ := Run.exec_cons_eq_some hrun
    obtain ⟨out, hout, rfl⟩ := Option.map_eq_some_iff.mp ht
    have htold' := told_step hout htold
    refine ⟨fun hhistory => Bool.eq_false_of_not_eq_true fun hfails => ?_, fun u hu => ?_⟩
    · -- the handler of the relay reports a file that is in the pool
      obtain ⟨job, hfailed⟩ := (failed_relay_iff hout).mpr hfails
      have hin : inPool out.pool job = true := by
        rw [hfailed, hhistory] at htold'
        exact htold'
      cases events with
      | nil =>
        cases hrun
        rw [hfailed] at hidle
        cases hidle
      | cons e' events =>
        obtain ⟨u, hu, -⟩ := Run.exec_cons_eq_some hrun
        have htrue := (htruthful.2 _ ht).1 u job hu
        have hcleans := (hclean.2 _ ht).1 job .relay hfailed
        obtain ⟨out', hout', rfl⟩ := Option.map_eq_some_iff.mp hu
        dsimp only at hout'
        rw [hfailed] at hout'
        have hreport := step_failed_relay hout' hcleans
        obtain ⟨-, target, -, hpool⟩ := reporting_spec hout' hreport
        have hout := htrue hreport
        rw [hpool, hin] at hout
        cases hout
    · cases ht.symm.trans hu
      exact ih htold' hrun (hclean.2 _ ht) (htruthful.2 _ ht)

theorem accounted_idleWith (pool : Pool) : Accounted (idleWith pool) :=
  ⟨trivial, fun _ _ => rfl⟩

/-- In every run of jobs in which the relay does not fail once an ack POST for the fetched
file has been refused, error POSTs are sent only for files that are not in the pool; and when
every failed download is cleaned up and the last job ended, only in such a run. -/
theorem truthful_iff_acksReach (digest : Bytes → Digest) (ownIp : Option Str) (pool : Pool)
    (events : List TransferEvent) :
    (Run.Along (servicingStep digest ownIp) (AcksReach digest) (idleWith pool) events →
      Run.Along (servicingStep digest ownIp) (Truthful digest ownIp) (idleWith pool) events) ∧
    ∀ s, Run.exec (servicingStep digest ownIp) (idleWith pool) events = some s →
      s.phase = .idle → Run.Along (servicingStep digest ownIp) Cleans (idleWith pool) events →
      (Run.Along (servicingStep digest ownIp) (Truthful digest ownIp) (idleWith pool) events ↔
        Run.Along (servicingStep digest ownIp) (AcksReach digest) (idleWith pool) events) := by
  have hsound : Run.Along (servicingStep digest ownIp) (AcksReach digest) (idleWith pool) events →
      Run.Along (servicingStep digest ownIp) (Truthful digest ownIp) (idleWith pool) events :=
    Run.along_of_invariant (fun _ _ _ hi hg hs => accounted_step hi hg hs)
      (fun _ _ hi _ => truthful_of_accounted hi) (accounted_idleWith pool)
  refine ⟨hsound, fun s hrun hidle hclean => ⟨fun htruthful => ?_, hsound⟩⟩
  exact acksReach_of_truthful trivial hrun hidle hclean htruthful

end Runs

/-- The relay's file is stored, the ack POST for it is refused, and the error POST is sent. -/
theorem not_truthful_refused_ack :
    ¬ Run.Along (servicingStep zeroDigest none) (Truthful zeroDigest none)
      (idleWith fun _ => none)
      ([.job zeroJob false, .opened (some (tmpName zeroJob.sha256)), .relayChunk 200 [7], .closed,
        .renamed true, .raised] ++ .unlinked (some (tmpName zeroJob.sha256)) :: []) := by
  intro h
  have hlast := h.at rfl
  have hreport := hlast _ zeroJob rfl rfl
  exact absurd hreport (by decide)

end HadcdAgent.Storage
