import HadcdAgent.Lib.Run
import HadcdAgent.Storage.Transfer

/-!
# The storage pool

The node of the transfer loop, `Agent._storage_gc_loop` (`agent/agent.py`) and
`_StorageHandler.do_GET` (`agent/storage_server.py`) over one pool directory. The
steps of the three come in any order, between crashes and restarts of the process.
-/

namespace HadcdAgent.Storage

open Lib

/-! ### The source -/

def stale (active : List Str) (name : Str) : Bool :=
  ".tmp".toList.isSuffixOf name || name.length = 64 && name ∉ active

/-- The loop over `pool_dir.iterdir()`: for each name, whether its `unlink` succeeds. -/
def gcPass (active : List Str) : List (Str × Bool) → Pool → Pool
  | [], pool => pool
  | (name, removable) :: rest, pool =>
    gcPass active rest (if stale active name && removable then unlink pool (some name) else pool)

/-- `re.match(r"^/pool/([0-9a-f]{64})$", path)`; `$` also matches before a final
newline. -/
def sha256Re (path : Str) : Option Str :=
  if "/pool/".toList.isPrefixOf path then
    let rest := path.drop 6
    let group := if rest.getLast? = some '\n' then rest.dropLast else rest
    if IsDigest group then some group else none
  else none

/-- A 200 answer on its way: the path asked for, the file and the size that `stat` saw. -/
structure Serving where
  path : Str
  sha256 : Str
  size : ℕ

inductive Answer where
  | error (code : ℕ) (message : Str)
  | ok (headers : Serving) (body : Bytes)

/-- `do_GET` up to `end_headers`. -/
def doGet (pool : Pool) (path : Str) (statOk : Bool) : Answer ⊕ Serving :=
  match sha256Re path with
  | none => .inl (.error 404 "not found")
  | some sha256 =>
    match pool sha256 with
    | none => .inl (.error 404 "file not in pool")
    | some content =>
      if statOk then .inr ⟨path, sha256, content.length⟩ else .inl (.error 500 "stat failed")

/-- How the loop over `fh.read` ends: at the end of the file, by an `OSError` after
some bytes, or because the client has gone. -/
inductive Sending where
  | complete
  | failed (after : ℕ)
  | disconnected
  deriving DecidableEq

/-- The rest of `do_GET`. The file is opened by its name again; when that fails the
answer has no body. -/
def sendBody (pool : Pool) (headers : Serving) : Sending → Option Answer
  | .complete => some (.ok headers ((pool headers.sha256).getD []))
  | .failed after => some (.ok headers (((pool headers.sha256).getD []).take after))
  | .disconnected => none

/-- `ack` and `answer` are what the last step sent. -/
structure Node where
  pool : Pool
  phase : Phase
  ack : Option Job
  serving : Option Serving
  answer : Option Answer

def Node.start : Node := ⟨fun _ => none, .idle, none, none, none⟩

inductive Event where
  | transfer (event : TransferEvent)
  | gc (active : List Str) (listing : List (Str × Bool))
  | request (path : Str) (statOk : Bool)
  | send (sending : Sending)
  | crash

def step (digest : Bytes → Digest) (ownIp : Option Str) (n : Node) : Event → Option Node
  | .transfer event =>
    (serviceTransferJob digest ownIp n.pool n.phase event).map fun out =>
      ⟨out.pool, out.phase, out.ack, n.serving, none⟩
  | .gc active listing => some ⟨gcPass active listing n.pool, n.phase, none, n.serving, none⟩
  | .request path statOk =>
    match n.serving with
    | some _ => none
    | none =>
      match doGet n.pool path statOk with
      | .inl answer => some ⟨n.pool, n.phase, none, none, some answer⟩
      | .inr headers => some ⟨n.pool, n.phase, none, some headers, none⟩
  | .send sending =>
    match n.serving with
    | some headers => some ⟨n.pool, n.phase, none, none, sendBody n.pool headers sending⟩
    | none => none
  | .crash => some ⟨n.pool, .idle, none, none, none⟩

/-! ### What every step keeps -/

theorem pool_of_gcPass {active : List Str} {listing : List (Str × Bool)} {pool : Pool} {name : Str}
    {content : Bytes} (h : gcPass active listing pool name = some content) :
    pool name = some content := by
  induction listing generalizing pool with
  | nil => exact h
  | cons entry rest ih =>
    obtain ⟨other, removable⟩ := entry
    have hrest := ih h
    split_ifs at hrest with hstale
    · by_cases heq : name = other
      · subst heq
        rw [unlink, Function.update_self] at hrest
        cases hrest
      · rwa [unlink, Function.update_of_ne heq] at hrest
    · exact hrest

structure Inv (digest : Bytes → Digest) (n : Node) : Prop where
  intact : Intact digest n.pool
  staged : n.phase.Staged n.pool
  named : ∀ headers, n.serving = some headers → sha256Re headers.path = some headers.sha256

theorem inv_start (digest : Bytes → Digest) : Inv digest Node.start where
  intact := fun _ _ _ h => (nomatch h)
  staged := trivial
  named := fun _ h => (nomatch h)

/-- Before the headers are out, an answer is an error; after it, the path names a file. -/
theorem doGet_spec (pool : Pool) (path : Str) (statOk : Bool) :
    (∃ code message, doGet pool path statOk = .inl (.error code message)) ∨
    ∃ headers, doGet pool path statOk = .inr headers ∧
      sha256Re headers.path = some headers.sha256 := by
  unfold doGet
  cases hre : sha256Re path with
  | none => exact Or.inl ⟨_, _, rfl⟩
  | some sha256 =>
    dsimp only
    cases pool sha256 with
    | none => exact Or.inl ⟨_, _, rfl⟩
    | some content =>
      cases statOk with
      | false => exact Or.inl ⟨_, _, rfl⟩
      | true => exact Or.inr ⟨_, rfl, hre⟩

section Step

variable {digest : Bytes → Digest} {ownIp : Option Str} {n t : Node}

theorem step_request {path : Str} {statOk : Bool}
    (h : step digest ownIp n (.request path statOk) = some t) :
    (∃ code message, t = ⟨n.pool, n.phase, none, none, some (.error code message)⟩) ∨
    ∃ headers, t = ⟨n.pool, n.phase, none, some headers, none⟩ ∧
      sha256Re headers.path = some headers.sha256 := by
  simp only [step] at h
  split at h
  case h_1 => cases h
  case h_2 =>
    rcases doGet_spec n.pool path statOk with ⟨code, message, hget⟩ | ⟨headers, hget, hre⟩
    · rw [hget] at h
      cases h
      exact Or.inl ⟨code, message, rfl⟩
    · rw [hget] at h
      cases h
      exact Or.inr ⟨headers, rfl, hre⟩

theorem step_send {sending : Sending} (h : step digest ownIp n (.send sending) = some t) :
    ∃ headers, n.serving = some headers ∧
      t = ⟨n.pool, n.phase, none, none, sendBody n.pool headers sending⟩ := by
  simp only [step] at h
  split at h
  case h_1 headers hserving =>
    cases h
    exact ⟨headers, hserving, rfl⟩
  case h_2 => cases h

theorem step_inv {event : Event} (hi : Inv digest n)
    (h : step digest ownIp n event = some t) : Inv digest t := by
  cases event with
  | transfer event =>
    obtain ⟨out, hout, rfl⟩ := Option.map_eq_some_iff.mp h
    obtain ⟨hfiled, hstaged⟩ := serviceTransferJob_spec hout hi.staged
    exact ⟨hi.intact.filed hfiled, hstaged, hi.named⟩
  | gc active listing =>
    cases h
    have hsub : ∀ name content, gcPass active listing n.pool name = some content →
        n.pool name = some content := fun _ _ => pool_of_gcPass
    have hfiled : Filed digest n.pool (gcPass active listing n.pool) :=
      fun name _ content hc => Or.inl (hsub name content hc)
    exact ⟨hi.intact.filed hfiled, hi.staged.of_removed hsub, hi.named⟩
  | request path statOk =>
    rcases step_request h with ⟨code, message, rfl⟩ | ⟨headers, rfl, hre⟩
    · exact ⟨hi.intact, hi.staged, fun _ hs => (nomatch hs)⟩
    · refine ⟨hi.intact, hi.staged, ?_⟩
      intro headers' hs
      cases hs
      exact hre
  | send sending =>
    obtain ⟨headers, -, rfl⟩ := step_send h
    exact ⟨hi.intact, hi.staged, fun _ hs => (nomatch hs)⟩
  | crash =>
    -- the files stay, whatever the process was doing with them
    cases h
    exact ⟨hi.intact, trivial, fun _ hs => (nomatch hs)⟩

end Step

/-- Whatever is fetched, collected and served, a file under the name of a digest
has the content of that digest. -/
theorem intact_of_run {digest : Bytes → Digest} {ownIp : Option Str} {events : List Event}
    {n : Node} (h : Run.exec (step digest ownIp) Node.start events = some n) :
    Intact digest n.pool :=
  (Run.exec_preserves (fun _ _ _ hi ht => step_inv hi ht) (inv_start digest) h).intact

/-! ### Acks and answers -/

/-- The pool is intact, an ack is for a file that it holds under the hash of the
job, and a 200 answer has the content of the file that its path names. -/
structure Sound (digest : Bytes → Digest) (n : Node) : Prop where
  intact : Intact digest n.pool
  acked : ∀ job, n.ack = some job → Held digest n.pool job.sha256
  served : ∀ headers body, n.answer = some (.ok headers body) →
    ∃ sha256, sha256Re headers.path = some sha256 ∧ n.pool sha256 = some body ∧
      headers.size = body.length

def Sending.Whole (content : Bytes) : Sending → Prop
  | .complete => True
  | .failed after => content.length ≤ after
  | .disconnected => False

/-- A job whose path exists has a digest for a name, and the file that the server
opens for a client that stays is there, has the size announced and is read to its end. -/
def Genuine (n : Node) : Event → Prop
  | .transfer (.job job elsewhere) =>
    pathExists n.pool job.sha256 elsewhere = true → IsDigest job.sha256
  | .send sending => sending ≠ .disconnected → ∀ headers, n.serving = some headers →
    ∃ content, n.pool headers.sha256 = some content ∧ content.length = headers.size ∧
      sending.Whole content
  | _ => True

theorem held_of_pathExists {digest : Bytes → Digest} {pool : Pool} {sha256 : Str} {elsewhere : Bool}
    (hi : Intact digest pool) (hd : IsDigest sha256)
    (h : pathExists pool sha256 elsewhere = true) : Held digest pool sha256 := by
  rw [pathExists, if_pos hd.isSegment] at h
  obtain ⟨content, hcontent⟩ := Option.isSome_iff_exists.mp h
  exact ⟨content, hcontent, hi sha256 hd content hcontent⟩

theorem Held.isDigest {digest : Bytes → Digest} {pool : Pool} {sha256 : Str}
    (h : Held digest pool sha256) : IsDigest sha256 := by
  obtain ⟨content, -, rfl⟩ := h
  exact (digest content).2

theorem sendBody_served_iff {pool : Pool} {headers : Serving} {sending : Sending}
    (hne : sending ≠ .disconnected) :
    (∀ headers' body, sendBody pool headers sending = some (.ok headers' body) →
      headers' = headers ∧ pool headers.sha256 = some body ∧ headers.size = body.length) ↔
    ∃ content, pool headers.sha256 = some content ∧ content.length = headers.size ∧
      sending.Whole content := by
  cases sending with
  | disconnected => exact absurd rfl hne
  | complete =>
    constructor
    · intro h
      obtain ⟨-, hbody, hsize⟩ := h _ _ rfl
      exact ⟨_, hbody, hsize.symm, trivial⟩
    · rintro ⟨content, hcontent, hsize, -⟩ headers' body h
      rw [sendBody, hcontent] at h
      cases h
      exact ⟨rfl, hcontent, hsize.symm⟩
  | failed after =>
    constructor
    · intro h
      obtain ⟨-, hbody, hsize⟩ := h _ _ rfl
      refine ⟨_, hbody, hsize.symm, ?_⟩
      rw [Sending.Whole, List.length_take]
      exact min_le_left ..
    · rintro ⟨content, hcontent, hsize, hwhole⟩ headers' body h
      rw [sendBody, hcontent, Option.getD_some, List.take_of_length_le hwhole] at h
      cases h
      exact ⟨rfl, hcontent, hsize.symm⟩

theorem sound_of_step {digest : Bytes → Digest} {ownIp : Option Str} {n t : Node} {event : Event}
    (hi : Inv digest n) (hg : Genuine n event) (h : step digest ownIp n event = some t) :
    Sound digest t := by
  have hintact : Intact digest t.pool := (step_inv hi h).intact
  cases event with
  | transfer event =>
    obtain ⟨out, hout, rfl⟩ := Option.map_eq_some_iff.mp h
    refine ⟨hintact, ?_, fun _ _ ha => (nomatch ha)⟩
    intro job hack
    rcases ack_spec hout hi.staged hack with ⟨elsewhere, -, rfl, hexists, hpool⟩ | hheld
    · rw [hpool]
      exact held_of_pathExists hi.intact (hg hexists) hexists
    · exact hheld
  | gc active listing =>
    cases h
    exact ⟨hintact, fun _ ha => (nomatch ha), fun _ _ ha => (nomatch ha)⟩
  | request path statOk =>
    rcases step_request h with ⟨code, message, rfl⟩ | ⟨headers, rfl, -⟩
    · exact ⟨hintact, fun _ ha => (nomatch ha), fun _ _ ha => (nomatch ha)⟩
    · exact ⟨hintact, fun _ ha => (nomatch ha), fun _ _ ha => (nomatch ha)⟩
  | send sending =>
    obtain ⟨headers, hserving, rfl⟩ := step_send h
    refine ⟨hintact, fun _ ha => (nomatch ha), ?_⟩
    intro headers' body hbody
    have hne : sending ≠ .disconnected := by
      intro heq
      subst heq
      cases hbody
    obtain ⟨rfl, hpool, hsize⟩ :=
      (sendBody_served_iff hne).mpr (hg hne headers hserving) headers' body hbody
    exact ⟨_, hi.named _ hserving, hpool, hsize⟩
  | crash =>
    cases h
    exact ⟨hintact, fun _ ha => (nomatch ha), fun _ _ ha => (nomatch ha)⟩

theorem genuine_of_sound {digest : Bytes → Digest} {ownIp : Option Str} {n t : Node} {event : Event}
    (hi : Inv digest n) (h : step digest ownIp n event = some t) (hs : Sound digest t) :
    Genuine n event := by
  cases event with
  | transfer event =>
    cases event with
    | job job elsewhere =>
      intro hexists
      obtain ⟨out, hout, rfl⟩ := Option.map_eq_some_iff.mp h
      exact (hs.acked job (ack_of_pathExists hout hexists)).isDigest
    | _ => trivial
  | send sending =>
    intro hne headers hserving
    obtain ⟨headers₁, hserving₁, rfl⟩ := step_send h
    cases hserving.symm.trans hserving₁
    refine (sendBody_served_iff hne).mp ?_
    intro headers' body hbody
    have hsame : headers' = headers := by
      cases sending <;> cases hbody <;> rfl
    subst hsame
    obtain ⟨sha256, hre, hpool, hsize⟩ := hs.served _ _ hbody
    cases (hi.named _ hserving).symm.trans hre
    exact ⟨rfl, hpool, hsize⟩
  | _ => trivial

/-- In every run of the node, whatever the jobs, the peers, the relay and the
crashes: each state is sound exactly when each step is genuine. -/
theorem pool_sound_iff (digest : Bytes → Digest) (ownIp : Option Str) (events : List Event) :
    Run.AlongSteps (step digest ownIp) (fun _ _ t => Sound digest t) Node.start events ↔
      Run.AlongSteps (step digest ownIp) (fun n event _ => Genuine n event) Node.start events :=
  Run.alongSteps_iff_guard
    (fun _ _ t hi hg ht => ⟨step_inv hi ht, sound_of_step hi (hg t ht) ht⟩)
    (fun _ _ hi hs t ht => genuine_of_sound hi ht (hs t ht)) (inv_start digest)

def zeroDigest (_ : Bytes) : Digest :=
  ⟨List.replicate 64 '0', List.length_replicate, fun c hc => by
    rw [List.eq_of_mem_replicate hc]
    decide⟩

/-- A job without a hash: its path is the pool directory itself, and is acked. -/
theorem not_sound_empty_hash :
    ¬ Run.AlongSteps (step zeroDigest none) (fun _ _ t => Sound zeroDigest t) Node.start
      [.transfer (.job ⟨.str "job", [], 1, none⟩ true)] := by
  intro h
  obtain ⟨content, hcontent, -⟩ := (h.1 _ rfl).acked _ rfl
  cases hcontent

end HadcdAgent.Storage
