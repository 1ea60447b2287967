import HadcdAgent.Storage.Pool

/-!
# Nodes that fetch from one another

`Agent._fetch_from_peer` (`agent/agent.py`) against `_StorageHandler.do_GET`
(`agent/storage_server.py`) of another node. Every node takes its own steps, of which the
ones that hear from a node of the swarm are fed by that node's answer.
-/

namespace HadcdAgent.Storage

open Lib

/-! ### The nodes and what is between them -/

variable {ι : Type} [DecidableEq ι]

/-- The connection of a node that fetches: the answer's status and `Content-Length`, and
what has not been read of its body, `none` before the body is sent. -/
structure Wire (ι : Type) where
  server : ι
  status : ℕ
  size : ℕ
  rest : Option Bytes

structure Swarm (ι : Type) where
  node : ι → Node
  wire : ι → Option (Wire ι)

def Swarm.start : Swarm ι := ⟨fun _ => Node.start, fun _ => none⟩

inductive Act (ι : Type) where
  | ask (i j : ι) (path : Str) (statOk : Bool)
  | reply (i : ι) (sending : Sending)
  | status (i : ι)
  | chunk (i : ι) (n : ℕ)
  | close (i : ι)
  | own (i : ι) (event : Event)

/-- The job that is being fetched from a peer. -/
def Phase.peerJob : Phase → Option Job
  | .peerConnect job | .opening job .peer | .streaming job .peer .. | .checking job .peer _ => some job
  | _ => none

/-- What has been read of the body. -/
def Phase.received : Phase → Bytes
  | .streaming _ _ _ _ h => h
  | _ => []

/-- A node after a step of its own: a fetch that is over closes its connection. -/
def Swarm.set (s : Swarm ι) (i : ι) (n : Node) : Swarm ι :=
  ⟨Function.update s.node i n,
    Function.update s.wire i (if n.phase.peerJob.isSome then s.wire i else none)⟩

def Wire.hungUp (j : ι) (w : Wire ι) : Wire ι :=
  if w.server = j ∧ w.rest = none then { w with rest := some [] } else w

/-- The server has ended without a body: who waits for one reads the end. -/
def Swarm.hangUp (s : Swarm ι) (j : ι) : Swarm ι :=
  { s with wire := fun i => (s.wire i).map (Wire.hungUp j) }

/-- What the client sees of a request that has been handled up to `end_headers`. -/
def answered (j : ι) (n : Node) : Wire ι :=
  match n.serving, n.answer with
  | some headers, _ => ⟨j, 200, headers.size, none⟩
  | none, some (.error code _) => ⟨j, code, 0, some []⟩
  | none, _ => ⟨j, 500, 0, some []⟩

def bodyOf : Option Answer → Bytes
  | some (.ok _ body) => body
  | _ => []

/-- `url = f"http://{ip}:{port}/pool/{sha256}"`; what is no digest may be rewritten on its
way. -/
def Asks (job : Job) (path : Str) : Prop :=
  IsDigest job.sha256 → path = "/pool/".toList ++ job.sha256

instance (job : Job) (path : Str) : Decidable (Asks job path) := inferInstanceAs (Decidable (_ → _))

/-- The peer is heard through the connection. -/
def Event.fromPeer : Event → Bool
  | .transfer (.peerStatus _) | .transfer (.peerChunk _) | .transfer .closed => true
  | _ => false

def swarmStep (digest : Bytes → Digest) (ownIp : ι → Option Str) (s : Swarm ι) :
    Act ι → Option (Swarm ι)
  | .ask i j path statOk =>
    match (s.node i).phase, s.wire i with
    | .peerConnect job, none =>
      if Asks job path then
        (step digest (ownIp j) (s.node j) (.request path statOk)).map fun n =>
          ⟨Function.update s.node j n, Function.update s.wire i (some (answered j n))⟩
      else none
    | _, _ => none
  | .reply i sending =>
    match s.wire i with
    | some ⟨j, status, size, none⟩ =>
      (step digest (ownIp j) (s.node j) (.send sending)).map fun n =>
        let t := Swarm.hangUp ⟨Function.update s.node j n, s.wire⟩ j
        { t with wire := Function.update t.wire i (some ⟨j, status, size, some (bodyOf n.answer)⟩) }
    | _ => none
  | .status i =>
    match s.wire i with
    | some w =>
      (step digest (ownIp i) (s.node i) (.transfer (.peerStatus w.status))).map (s.set i)
    | none => none
  | .chunk i n =>
    match s.wire i with
    | some ⟨j, status, size, some body⟩ =>
      if 0 < n ∧ body ≠ [] then
        (step digest (ownIp i) (s.node i) (.transfer (.peerChunk (body.take n)))).map fun t =>
          Swarm.set { s with
            wire := Function.update s.wire i (some ⟨j, status, size, some (body.drop n)⟩) } i t
      else none
    | _ => none
  | .close i =>
    match s.wire i with
    | some ⟨_, _, size, some []⟩ =>
      -- a body that is shorter than announced raises instead
      if (s.node i).phase.received.length = size then
        (step digest (ownIp i) (s.node i) (.transfer .closed)).map (s.set i)
      else none
    | _ => none
  | .own i event =>
    if event.fromPeer ∧ (s.wire i).isSome then none
    else (step digest (ownIp i) (s.node i) event).map fun n =>
      if n.serving.isSome then s.set i n else (s.set i n).hangUp i

/-! ### What a connection promises -/

/-- The content that is about to be stored. -/
def Phase.checked (digest : Bytes → Digest) : Phase → Option Bytes
  | .checking job _ h => if (digest h).1 = job.sha256 then some h else none
  | _ => none

/-- Every file under the name of a digest is one of the contents `K`. -/
structure NodeInv (digest : Bytes → Digest) (K : Set Bytes) (n : Node) : Prop
    extends Inv digest n where
  among : ∀ name, IsDigest name → ∀ content, n.pool name = some content → content ∈ K

/-- The announced size is that of a content with the digest asked for, and what has been
read and is left to read is a beginning of it. -/
def Promised (digest : Bytes → Digest) (K : Set Bytes) (sha256 : Str) (w : Wire ι)
    (h : Bytes) : Prop :=
  ∃ content ∈ K, (digest content).1 = sha256 ∧ content.length = w.size ∧
    match w.rest with
    | none => h = []
    | some rest => h ++ rest <+: content

/-- Once the body has been read in full its hash is right. -/
def Phase.Follows (digest : Bytes → Digest) (K : Set Bytes) (sha256 : Str) (w : Wire ι) :
    Phase → Prop
  | .checking _ _ h => h ∈ K ∧ (digest h).1 = sha256
  | phase => Promised digest K sha256 w phase.received

/-- A connection stands for a fetch that is under way. -/
structure Linked (digest : Bytes → Digest) (K : Set Bytes) (phase : Phase) (w : Wire ι)
    (job : Job) : Prop where
  fetches : phase.peerJob = some job
  status : (∀ job, phase ≠ .peerConnect job) → w.status = 200
  promised : IsDigest job.sha256 → w.status = 200 → phase.Follows digest K job.sha256 w

/-- The server of a connection that waits for a body has the file of its job open. -/
def Waits (node : ι → Node) (phase : Phase) (w : Wire ι) : Prop :=
  w.rest = none → ∀ job, phase.peerJob = some job → ∃ headers,
    (node w.server).serving = some headers ∧ (IsDigest job.sha256 → headers.sha256 = job.sha256)

structure SwarmInv (digest : Bytes → Digest) (K : Set Bytes) (s : Swarm ι) : Prop where
  node : ∀ i, NodeInv digest K (s.node i)
  linked : ∀ i w, s.wire i = some w → ∃ job, Linked digest K (s.node i).phase w job
  waits : ∀ i w, s.wire i = some w → Waits s.node (s.node i).phase w

/-- Nobody waits for a body from `i`. -/
def Swarm.Unawaited (s : Swarm ι) (i : ι) : Prop :=
  ∀ k w, s.wire k = some w → w.rest = none → w.server ≠ i

/-- A step of one node and of its own connection. -/
def Swarm.put (s : Swarm ι) (i : ι) (n : Node) (w : Option (Wire ι)) : Swarm ι :=
  ⟨Function.update s.node i n, Function.update s.wire i w⟩

section Invariant

variable {digest : Bytes → Digest} {K : Set Bytes} {s : Swarm ι} {i j : ι} {n : Node} {w : Wire ι} {job : Job}

theorem SwarmInv.waits_update (hs : SwarmInv digest K s)
    (hserving : n.serving = (s.node i).serving ∨ s.Unawaited i) {k : ι} {phase : Phase}
    (hw : s.wire k = some w) (hphase : phase.peerJob = (s.node k).phase.peerJob) :
    Waits (Function.update s.node i n) phase w := by
  intro hrest job hjob
  obtain ⟨headers, hheaders, hsha⟩ := hs.waits k w hw hrest job (hphase ▸ hjob)
  refine ⟨headers, ?_, hsha⟩
  by_cases hserver : w.server = i
  · have hsame : n.serving = (s.node i).serving :=
      hserving.resolve_right fun h => h k w hw hrest hserver
    rw [hserver] at hheaders ⊢
    rw [Function.update_self, hsame, hheaders]
  · rw [Function.update_of_ne hserver]
    exact hheaders

theorem SwarmInv.put (hs : SwarmInv digest K s) (hn : NodeInv digest K n) {w : Option (Wire ι)}
    (hlink : ∀ v, w = some v → ∃ job, Linked digest K n.phase v job)
    (hwaits : ∀ v, w = some v → Waits (Function.update s.node i n) n.phase v)
    (hserving : n.serving = (s.node i).serving ∨ s.Unawaited i) :
    SwarmInv digest K (s.put i n w) := by
  have hnode : ∀ {k}, k ≠ i → (s.put i n w).node k = s.node k :=
    fun hk => Function.update_of_ne hk ..
  have hwire : ∀ {k}, k ≠ i → (s.put i n w).wire k = s.wire k :=
    fun hk => Function.update_of_ne hk ..
  have hself : (s.put i n w).node i = n := Function.update_self ..
  have hself' : (s.put i n w).wire i = w := Function.update_self ..
  refine ⟨fun k => ?_, fun k v hv => ?_, fun k v hv => ?_⟩
  · by_cases hk : k = i
    · rw [hk, hself]
      exact hn
    · rw [hnode hk]
      exact hs.node k
  · by_cases hk : k = i
    · subst hk
      rw [hself'] at hv
      rw [hself]
      exact hlink v hv
    · rw [hwire hk] at hv
      rw [hnode hk]
      exact hs.linked k v hv
  · by_cases hk : k = i
    · subst hk
      rw [hself'] at hv
      rw [hself]
      exact hwaits v hv
    · rw [hwire hk] at hv
      rw [hnode hk]
      exact hs.waits_update hserving hv rfl

omit [DecidableEq ι] in
theorem Promised.hungUp {sha256 : Str} {h : Bytes} (hp : Promised digest K sha256 w h)
    (hw : w.rest = none) : Promised digest K sha256 { w with rest := some [] } h := by
  obtain ⟨content, hK, hsha, hsize, hrest⟩ := hp
  rw [hw] at hrest
  exact ⟨content, hK, hsha, hsize, by rw [hrest]; exact List.nil_prefix⟩

theorem Linked.hungUp {phase : Phase} (h : Linked digest K phase w job) (j : ι) :
    Linked digest K phase (w.hungUp j) job := by
  rw [Wire.hungUp]
  split_ifs with hw
  · refine ⟨h.fetches, h.status, fun hd hstatus => ?_⟩
    have hpromised := h.promised hd hstatus
    cases phase with
    | checking => exact hpromised
    | _ => exact Promised.hungUp hpromised hw.2
  · exact h

theorem SwarmInv.hangUp (hs : SwarmInv digest K s) (j : ι) : SwarmInv digest K (s.hangUp j) := by
  refine ⟨hs.node, fun k v hv => ?_, fun k v hv => ?_⟩
  · obtain ⟨w, hw, rfl⟩ := Option.map_eq_some_iff.mp hv
    obtain ⟨job, hjob⟩ := hs.linked k w hw
    exact ⟨job, hjob.hungUp j⟩
  · obtain ⟨w, hw, rfl⟩ := Option.map_eq_some_iff.mp hv
    rw [Wire.hungUp]
    split_ifs with hj
    · exact fun hrest => (nomatch hrest)
    · exact hs.waits k w hw

theorem unawaited_hangUp (s : Swarm ι) (j : ι) : (s.hangUp j).Unawaited j := by
  intro k v hv hrest hserver
  obtain ⟨w, -, rfl⟩ := Option.map_eq_some_iff.mp hv
  by_cases hj : w.server = j ∧ w.rest = none
  · rw [Wire.hungUp, if_pos hj] at hrest
    cases hrest
  · rw [Wire.hungUp, if_neg hj] at hrest hserver
    exact hj ⟨hserver, hrest⟩

theorem set_eq_put (s : Swarm ι) (i : ι) (n : Node) :
    s.set i n = s.put i n (if n.phase.peerJob.isSome then s.wire i else none) := rfl

end Invariant

/-! ### Steps of one node -/

theorem sha256Re_pool {sha256 : Str} (h : IsDigest sha256) :
    sha256Re ("/pool/".toList ++ sha256) = some sha256 := by
  have hprefix : "/pool/".toList.isPrefixOf ("/pool/".toList ++ sha256) = true :=
    List.isPrefixOf_iff_prefix.mpr (List.prefix_append ..)
  have hdrop : ("/pool/".toList ++ sha256).drop 6 = sha256 :=
    List.drop_left' (show "/pool/".toList.length = 6 by decide)
  have hlast : sha256.getLast? ≠ some '\n' := fun hl =>
    h.not_mem (show '\n' ∉ ("0123456789abcdef" : Str) by decide) (List.mem_of_getLast? hl)
  rw [sha256Re, if_pos hprefix]
  simp only [hdrop, if_neg hlast, if_pos h]

theorem doGet_headers {pool : Pool} {path : Str} {statOk : Bool} {headers : Serving}
    (h : doGet pool path statOk = .inr headers) : sha256Re path = some headers.sha256 ∧
      ∃ content, pool headers.sha256 = some content ∧ content.length = headers.size := by
  rw [doGet] at h
  split at h
  · cases h
  · next sha256 hre =>
      split at h
      · cases h
      · next content hcontent =>
          split_ifs at h
          cases h
          exact ⟨hre, content, hcontent, rfl⟩

theorem doGet_error {pool : Pool} {path : Str} {statOk : Bool} {answer : Answer}
    (h : doGet pool path statOk = .inl answer) :
    ∃ code message, answer = .error code message ∧ code ≠ 200 := by
  rw [doGet] at h
  split at h
  · cases h
    exact ⟨404, _, rfl, by decide⟩
  · split at h
    · cases h
      exact ⟨404, _, rfl, by decide⟩
    · split_ifs at h
      cases h
      exact ⟨500, _, rfl, by decide⟩

section Node

variable {digest : Bytes → Digest} {ownIp : Option Str} {n t : Node} {job : Job}

omit [DecidableEq ι] in
theorem step_request_answered {path : Str} {statOk : Bool} (j : ι)
    (h : step digest ownIp n (.request path statOk) = some t) :
    n.serving = none ∧ t.phase = n.phase ∧
      ((answered j t).status ≠ 200 ∧ (answered j t).rest ≠ none ∨
        ∃ headers content, t.serving = some headers ∧ sha256Re path = some headers.sha256 ∧
          n.pool headers.sha256 = some content ∧ content.length = headers.size) := by
  rw [step] at h
  split at h
  · cases h
  · next hserving =>
      cases hget : doGet n.pool path statOk with
      | inl answer =>
        rw [hget] at h
        cases h
        obtain ⟨code, message, rfl, hcode⟩ := doGet_error hget
        exact ⟨hserving, rfl, Or.inl ⟨hcode, Option.some_ne_none _⟩⟩
      | inr headers =>
        rw [hget] at h
        cases h
        obtain ⟨hre, content, hcontent, hsize⟩ := doGet_headers hget
        exact ⟨hserving, rfl, Or.inr ⟨headers, content, rfl, hre, hcontent, hsize⟩⟩

theorem pool_of_leads {pool : Pool} {sha256 name : Str} {target : Option Str}
    (h : Leads (tmpName sha256) target) (hname : IsDigest name) (data : Bytes) :
    truncate pool target name = pool name ∧ write pool target data name = pool name ∧
      unlink pool target name = pool name := by
  cases target with
  | none => exact ⟨rfl, rfl, rfl⟩
  | some other =>
    have hne := ne_of_leads_tmpName h hname
    exact ⟨Function.update_of_ne hne .., Function.update_of_ne hne ..,
      Function.update_of_ne hne ..⟩

/-- A file comes under the name of a digest after its check alone. -/
theorem pool_of_transfer {pool : Pool} {phase : Phase} {event : TransferEvent} {out : Outcome}
    (hs : phase.Staged pool) (h : serviceTransferJob digest ownIp pool phase event = some out)
    {name : Str} (hname : IsDigest name) {content : Bytes} (hc : out.pool name = some content) :
    pool name = some content ∨ phase.checked digest = some content := by
  cases moved_of_step h with
  | quiet => exact Or.inl hc
  | present => exact Or.inl hc
  | opened hleads => exact Or.inl ((pool_of_leads hleads hname []).1.symm.trans hc)
  | wrote data => exact Or.inl ((pool_of_leads hs.1 hname data).2.1.symm.trans hc)
  | closed => exact Or.inl hc
  | unlinked hleads => exact Or.inl ((pool_of_leads hleads hname []).2.2.symm.trans hc)
  | @renamed job via hashed staged hhash hstaged =>
    have hd : IsDigest job.sha256 := hhash ▸ (digest hashed).2
    cases hs hd staged hstaged
    have hc : rename pool (tmpName job.sha256) job.sha256 hashed name = some content := hc
    by_cases heq : name = job.sha256
    · subst heq
      rw [rename_dest] at hc
      cases hc
      exact Or.inr (if_pos hhash)
    · refine Or.inl ?_
      have hne : name ≠ tmpName job.sha256 := fun h => not_isDigest_tmpName _ (h ▸ hname)
      rwa [rename, Function.update_of_ne heq, Function.update_of_ne hne] at hc

theorem step_nodeInv {K : Set Bytes} {event : Event} (hi : NodeInv digest K n)
    (hK : ∀ h ∈ n.phase.checked digest, h ∈ K) (h : step digest ownIp n event = some t) :
    NodeInv digest K t := by
  refine ⟨step_inv hi.toInv h, fun name hname content hc => ?_⟩
  cases event with
  | transfer event =>
    obtain ⟨out, hout, rfl⟩ := Option.map_eq_some_iff.mp h
    rcases pool_of_transfer hi.staged hout hname hc with hold | hchecked
    · exact hi.among name hname content hold
    · exact hK content hchecked
  | gc =>
    cases h
    exact hi.among name hname content (pool_of_gcPass hc)
  | request =>
    rcases step_request h with ⟨_, _, rfl⟩ | ⟨_, rfl, -⟩
    · exact hi.among name hname content hc
    · exact hi.among name hname content hc
  | send =>
    obtain ⟨headers, -, rfl⟩ := step_send h
    exact hi.among name hname content hc
  | crash =>
    cases h
    exact hi.among name hname content hc

/-- The body that goes out is a beginning of the file, or nothing. -/
theorem step_send_body {sending : Sending} (h : step digest ownIp n (.send sending) = some t) :
    t.phase = n.phase ∧ t.serving = none ∧ ∀ headers, n.serving = some headers →
      bodyOf t.answer = [] ∨
        ∃ content, n.pool headers.sha256 = some content ∧ bodyOf t.answer <+: content := by
  obtain ⟨headers, hserving, rfl⟩ := step_send h
  refine ⟨rfl, rfl, fun headers' hheaders => ?_⟩
  rw [hserving] at hheaders
  cases hheaders
  cases hpool : n.pool headers.sha256 with
  | none =>
    refine Or.inl ?_
    cases sending <;> simp [sendBody, bodyOf, hpool]
  | some content =>
    cases sending with
    | complete => exact Or.inr ⟨content, rfl, by simp [sendBody, bodyOf, hpool]⟩
    | failed after =>
      refine Or.inr ⟨content, rfl, ?_⟩
      simp only [sendBody, bodyOf, hpool, Option.getD_some]
      exact List.take_prefix after content
    | disconnected => exact Or.inl rfl

theorem step_serving {event : Event} (h : step digest ownIp n event = some t) :
    t.serving = n.serving ∨ n.serving = none ∨ t.serving = none := by
  cases event with
  | transfer event =>
    obtain ⟨out, -, rfl⟩ := Option.map_eq_some_iff.mp h
    exact Or.inl rfl
  | gc =>
    cases h
    exact Or.inl rfl
  | request => exact Or.inr (Or.inl (step_request_answered () h).1)
  | send => exact Or.inr (Or.inr (step_send_body h).2.1)
  | crash =>
    cases h
    exact Or.inr (Or.inr rfl)

theorem transfer_peerJob {pool : Pool} {phase : Phase} {event : TransferEvent} {out : Outcome}
    (hjob : phase.peerJob = some job) (hown : (Event.transfer event).fromPeer = false)
    (h : serviceTransferJob digest ownIp pool phase event = some out) :
    out.phase.peerJob = none ∨
      ∃ fh, phase = .opening job .peer ∧ out.phase = .streaming job .peer fh 0 [] := by
  cases phase with
  | peerConnect job' =>
    cases event with
    | raised =>
      cases h
      exact Or.inl rfl
    | peerStatus => cases hown
    | _ => cases h
  | opening job' via =>
    cases via with
    | relay => cases hjob
    | peer =>
      cases hjob
      cases event with
      | opened fh =>
        rw [serviceTransferJob] at h
        split_ifs at h
        cases h
        exact Or.inr ⟨fh, rfl, rfl⟩
      | raised =>
        cases h
        exact Or.inl rfl
      | _ => cases h
  | streaming job' via fh seq hashed =>
    cases via with
    | relay => cases hjob
    | peer =>
      cases event with
      | raised =>
        cases h
        exact Or.inl rfl
      | peerChunk => cases hown
      | closed => cases hown
      | _ => cases h
  | checking job' via hashed =>
    cases event with
    | renamed ok =>
      simp only [serviceTransferJob] at h
      split_ifs at h
      · split at h
        · cases h
          exact Or.inl rfl
        · cases h
          exact Or.inl rfl
      · cases h
        exact Or.inl rfl
    | raised =>
      cases h
      exact Or.inl rfl
    | _ => cases h
  | _ => cases hjob

/-- What a node does on its own while it fetches from a peer. -/
theorem step_peerJob {event : Event} (hjob : n.phase.peerJob = some job)
    (hown : event.fromPeer = false) (h : step digest ownIp n event = some t) :
    t.phase = n.phase ∨ t.phase.peerJob = none ∨
      ∃ fh, n.phase = .opening job .peer ∧ t.phase = .streaming job .peer fh 0 [] := by
  cases event with
  | gc =>
    cases h
    exact Or.inl rfl
  | request => exact Or.inl (step_request_answered () h).2.1
  | send => exact Or.inl (step_send_body h).1
  | crash =>
    cases h
    exact Or.inr (Or.inl rfl)
  | transfer event =>
    obtain ⟨out, hout, rfl⟩ := Option.map_eq_some_iff.mp h
    exact Or.inr (transfer_peerJob hjob hown hout)

/-- The connection is heard: the status, a piece of the body, its end. -/
inductive Heard (job : Job) : TransferEvent → Phase → Phase → Prop
  | status (status : ℕ) : Heard job (.peerStatus status) (.peerConnect job)
      (.opening job (if status = 200 then .peer else .relay))
  | chunk (chunk : Bytes) (fh : Option Str) (seq : ℕ) (h : Bytes) :
      Heard job (.peerChunk chunk) (.streaming job .peer fh seq h)
        (.streaming job .peer fh (seq + 1) (h ++ chunk))
  | closed (fh : Option Str) (seq : ℕ) (h : Bytes) :
      Heard job .closed (.streaming job .peer fh seq h) (.checking job .peer h)

theorem heard_of_transfer {pool : Pool} {phase : Phase} {event : TransferEvent} {out : Outcome}
    (hjob : phase.peerJob = some job) (hpeer : (Event.transfer event).fromPeer = true)
    (h : serviceTransferJob digest ownIp pool phase event = some out) :
    Heard job event phase out.phase := by
  cases phase with
  | peerConnect job' =>
    cases hjob
    cases event with
    | peerStatus status =>
      cases h
      exact .status status
    | raised => cases hpeer
    | _ => cases h
  | opening job' via =>
    cases via with
    | relay => cases hjob
    | peer =>
      cases event with
      | opened => cases hpeer
      | raised => cases hpeer
      | _ => cases h
  | streaming job' via fh seq hashed =>
    cases via with
    | relay => cases hjob
    | peer =>
      cases hjob
      cases event with
      | peerChunk chunk =>
        cases h
        exact .chunk chunk fh seq hashed
      | closed =>
        cases h
        exact .closed fh seq hashed
      | raised => cases hpeer
      | _ => cases h
  | checking job' via hashed =>
    cases event with
    | renamed => cases hpeer
    | raised => cases hpeer
    | _ => cases h
  | _ => cases hjob

theorem step_heard {event : TransferEvent} (hjob : n.phase.peerJob = some job)
    (hpeer : (Event.transfer event).fromPeer = true)
    (h : step digest ownIp n (.transfer event) = some t) :
    t.serving = n.serving ∧ Heard job event n.phase t.phase := by
  obtain ⟨out, hout, rfl⟩ := Option.map_eq_some_iff.mp h
  exact ⟨rfl, heard_of_transfer hjob hpeer hout⟩

end Node

/-! ### Steps of the swarm -/

section Swarm

variable {digest : Bytes → Digest} {K : Set Bytes} {ownIp : ι → Option Str} {s t : Swarm ι} {i j : ι} {n : Node}
  {w : Wire ι}

omit [DecidableEq ι] in
theorem unawaited_of_serving (hs : SwarmInv digest K s) (h : (s.node i).serving = none) :
    s.Unawaited i := by
  intro k v hv hrest hserver
  obtain ⟨job, hlinked⟩ := hs.linked k v hv
  obtain ⟨headers, hheaders, -⟩ := hs.waits k v hv hrest job hlinked.fetches
  rw [hserver, h] at hheaders
  cases hheaders

theorem put_put (s : Swarm ι) (i j : ι) (n : Node) (w : Option (Wire ι)) :
    (s.put j n (s.wire j)).put i ((s.put j n (s.wire j)).node i) w =
      ⟨Function.update s.node j n, Function.update s.wire i w⟩ := by
  simp only [Swarm.put, Function.update_eq_self]

theorem put_phase (i : ι) (w : Option (Wire ι)) (h : n.phase = (s.node j).phase) :
    ((s.put j n w).node i).phase = (s.node i).phase := by
  by_cases hij : i = j
  · subst hij
    have hself : (s.put i n w).node i = n := Function.update_self ..
    rw [hself, h]
  · have hne : (s.put j n w).node i = s.node i := Function.update_of_ne hij ..
    rw [hne]

theorem set_hangUp (s : Swarm ι) (i : ι) (n : Node) :
    (s.set i n).hangUp i = (s.hangUp i).set i n := by
  have hwire : ((s.set i n).hangUp i).wire = ((s.hangUp i).set i n).wire := by
    funext k
    by_cases hk : k = i
    · subst hk
      simp only [Swarm.set, Swarm.hangUp, Function.update_self]
      split_ifs <;> rfl
    · simp only [Swarm.set, Swarm.hangUp, Function.update_of_ne hk]
  exact congrArg (Swarm.mk _) hwire

theorem SwarmInv.set_own (hs : SwarmInv digest K s)
    (hK : ∀ h ∈ (s.node i).phase.checked digest, h ∈ K) {event : Event}
    (hown : event.fromPeer = false ∨ s.wire i = none)
    (hstep : step digest (ownIp i) (s.node i) event = some n)
    (hserving : n.serving = (s.node i).serving ∨ s.Unawaited i) :
    SwarmInv digest K (s.set i n) := by
  rw [set_eq_put]
  have hn : NodeInv digest K n := step_nodeInv (hs.node i) hK hstep
  cases hw : s.wire i with
  | none => exact hs.put hn (by simp) (by simp) hserving
  | some w =>
    have hpeer : event.fromPeer = false :=
      hown.resolve_right fun hnone => Option.some_ne_none w (hw.symm.trans hnone)
    obtain ⟨job, hlinked⟩ := hs.linked i w hw
    rcases step_peerJob hlinked.fetches hpeer hstep with hsame | hover | ⟨fh, hopening, hstreaming⟩
    · have hjob : n.phase.peerJob = (s.node i).phase.peerJob := congrArg _ hsame
      rw [if_pos (by rw [hjob, hlinked.fetches]; rfl)]
      refine hs.put hn ?_ ?_ hserving
      · rintro v ⟨⟩
        exact ⟨job, hsame ▸ hlinked⟩
      · rintro v ⟨⟩
        exact hs.waits_update hserving hw hjob
    · rw [hover]
      exact hs.put hn (by simp) (by simp) hserving
    · have hpromised := hlinked.promised
      have hstatus := hlinked.status
      rw [hopening] at hpromised hstatus
      have hjob : n.phase.peerJob = (s.node i).phase.peerJob := by
        rw [hopening, hstreaming]
        rfl
      rw [if_pos (by rw [hjob, hlinked.fetches]; rfl)]
      refine hs.put hn ?_ ?_ hserving
      · rintro v ⟨⟩
        rw [hstreaming]
        exact ⟨job, rfl, fun _ => hstatus nofun, hpromised⟩
      · rintro v ⟨⟩
        exact hs.waits_update hserving hw hjob

theorem SwarmInv.own (hs : SwarmInv digest K s)
    (hK : ∀ h ∈ (s.node i).phase.checked digest, h ∈ K) {event : Event}
    (hown : event.fromPeer = false ∨ s.wire i = none)
    (hstep : step digest (ownIp i) (s.node i) event = some n) :
    SwarmInv digest K (if n.serving.isSome then s.set i n else (s.set i n).hangUp i) := by
  split_ifs with hsome
  · refine hs.set_own hK hown hstep ?_
    rcases step_serving hstep with hsame | hnone | hended
    · exact Or.inl hsame
    · exact Or.inr (unawaited_of_serving hs hnone)
    · rw [hended] at hsome
      cases hsome
  · rw [set_hangUp]
    have hwire : event.fromPeer = false ∨ (s.hangUp i).wire i = none :=
      hown.imp_right fun hnone => Option.map_eq_none_iff.mpr hnone
    exact (hs.hangUp i).set_own hK hwire hstep (Or.inr (unawaited_hangUp s i))

theorem SwarmInv.ask (hs : SwarmInv digest K s)
    (hK : ∀ h ∈ (s.node j).phase.checked digest, h ∈ K) {job : Job} {path : Str} {statOk : Bool}
    (hphase : (s.node i).phase = .peerConnect job) (hasks : Asks job path)
    (hstep : step digest (ownIp j) (s.node j) (.request path statOk) = some n) :
    SwarmInv digest K
      ⟨Function.update s.node j n, Function.update s.wire i (some (answered j n))⟩ := by
  obtain ⟨hserving, hsame, hanswered⟩ := step_request_answered j hstep
  have hunawaited : s.Unawaited j := unawaited_of_serving hs hserving
  have hserver : SwarmInv digest K (s.put j n (s.wire j)) := by
    refine hs.put (step_nodeInv (hs.node j) hK hstep) ?_ ?_ (Or.inr hunawaited)
    · rw [hsame]
      exact hs.linked j
    · exact fun v hv => hs.waits_update (Or.inr hunawaited) hv (congrArg _ hsame)
  have hclient : ((s.put j n (s.wire j)).node i).phase = .peerConnect job :=
    (put_phase i _ hsame).trans hphase
  have hfile : IsDigest job.sha256 → ∀ headers : Serving, sha256Re path = some headers.sha256 →
      headers.sha256 = job.sha256 := by
    intro hd headers hre
    rw [hasks hd, sha256Re_pool hd] at hre
    exact (Option.some.inj hre).symm
  rw [← put_put]
  refine hserver.put (hserver.node i) ?_ ?_ (Or.inl rfl)
  · rintro v ⟨⟩
    rw [hclient]
    refine ⟨job, rfl, fun h => absurd rfl (h job), fun hd hstatus => ?_⟩
    rcases hanswered with ⟨hne, -⟩ | ⟨headers, content, hheaders, hre, hcontent, hsize⟩
    · exact absurd hstatus hne
    · have hsha := hfile hd headers hre
      rw [hsha] at hcontent
      have hwire : answered j n = ⟨j, 200, headers.size, none⟩ := by rw [answered, hheaders]
      rw [hwire]
      exact ⟨content, (hs.node j).among _ hd content hcontent, (hs.node j).intact _ hd content hcontent,
        hsize, rfl⟩
  · rintro v ⟨⟩ hrest job' hjob'
    rw [hclient] at hjob'
    cases hjob'
    rcases hanswered with ⟨-, hne⟩ | ⟨headers, content, hheaders, hre, -, -⟩
    · exact absurd hrest hne
    · have hwire : (answered j n).server = j := by rw [answered, hheaders]
      refine ⟨headers, ?_, fun hd => hfile hd headers hre⟩
      simp only [Function.update_eq_self, hwire, Swarm.put, Function.update_self, hheaders]

omit [DecidableEq ι] in
/-- The body comes from the file with the digest asked for. -/
theorem Promised.sent (hinj : Set.InjOn digest K) {sha256 : Str} {h body : Bytes}
    (hp : Promised digest K sha256 w h) (hw : w.rest = none)
    (hbody : body = [] ∨ ∃ content ∈ K, (digest content).1 = sha256 ∧ body <+: content) :
    Promised digest K sha256 { w with rest := some body } h := by
  obtain ⟨content, hK, hsha, hsize, hrest⟩ := hp
  rw [hw] at hrest
  refine ⟨content, hK, hsha, hsize, ?_⟩
  rcases hbody with rfl | ⟨content', hK', hsha', hprefix⟩
  · rw [hrest]
    exact List.nil_prefix
  · have hsame : content' = content := hinj hK' hK (Subtype.ext (hsha'.trans hsha.symm))
    rw [hrest]
    exact hsame ▸ hprefix

theorem SwarmInv.reply (hs : SwarmInv digest K s)
    (hK : ∀ h ∈ (s.node j).phase.checked digest, h ∈ K) (hinj : Set.InjOn digest K) {status size : ℕ} {sending : Sending}
    (hw : s.wire i = some ⟨j, status, size, none⟩)
    (hstep : step digest (ownIp j) (s.node j) (.send sending) = some n) :
    SwarmInv digest K
      ⟨Function.update s.node j n, Function.update (s.hangUp j).wire i
        (some ⟨j, status, size, some (bodyOf n.answer)⟩)⟩ := by
  obtain ⟨hsame, hended, hbody⟩ := step_send_body hstep
  obtain ⟨job, hlinked⟩ := hs.linked i _ hw
  obtain ⟨headers, hheaders, hsha⟩ := hs.waits i _ hw rfl job hlinked.fetches
  have hhung : SwarmInv digest K (s.hangUp j) := hs.hangUp j
  have hunawaited : (s.hangUp j).Unawaited j := unawaited_hangUp s j
  have hserver : SwarmInv digest K ((s.hangUp j).put j n ((s.hangUp j).wire j)) := by
    refine hhung.put (step_nodeInv (hs.node j) hK hstep) ?_ ?_ (Or.inr hunawaited)
    · rw [hsame]
      exact hhung.linked j
    · exact fun v hv => hhung.waits_update (Or.inr hunawaited) hv (congrArg _ hsame)
  have hclient : (((s.hangUp j).put j n ((s.hangUp j).wire j)).node i).phase = (s.node i).phase :=
    put_phase (s := s.hangUp j) i ((s.hangUp j).wire j) hsame
  have hsent : IsDigest job.sha256 → bodyOf n.answer = [] ∨
      ∃ content ∈ K, (digest content).1 = job.sha256 ∧ bodyOf n.answer <+: content := by
    intro hd
    refine (hbody headers hheaders).imp_right fun ⟨content, hcontent, hprefix⟩ => ?_
    rw [hsha hd] at hcontent
    exact ⟨content, (hs.node j).among _ hd content hcontent, (hs.node j).intact _ hd content hcontent, hprefix⟩
  have hflat := put_put (s.hangUp j) i j n (some ⟨j, status, size, some (bodyOf n.answer)⟩)
  refine Eq.mp (congrArg (SwarmInv digest K) hflat) ?_
  refine hserver.put (hserver.node i) ?_ ?_ (Or.inl rfl)
  · rintro v ⟨⟩
    rw [hclient]
    refine ⟨job, hlinked.fetches, hlinked.status, fun hd hstatus => ?_⟩
    have hpromised := hlinked.promised hd hstatus
    cases hphase : (s.node i).phase with
    | checking =>
      rw [hphase] at hpromised
      exact hpromised
    | _ =>
      rw [hphase] at hpromised
      exact Promised.sent hinj hpromised rfl (hsent hd)
  · rintro v ⟨⟩ hrest
    cases hrest

/-- A node that hears from its connection goes on with what is left of it. -/
theorem SwarmInv.hear (hs : SwarmInv digest K s)
    (hK : ∀ h ∈ (s.node i).phase.checked digest, h ∈ K) {event : TransferEvent} {w' : Wire ι}
    (hw : s.wire i = some w) (hpeer : (Event.transfer event).fromPeer = true)
    (hstep : step digest (ownIp i) (s.node i) (.transfer event) = some n)
    (hleft : w'.rest = none → w' = w)
    (hlinked : ∀ job, Linked digest K (s.node i).phase w job → Heard job event (s.node i).phase n.phase →
      n.phase.peerJob.isSome → Linked digest K n.phase w' job) :
    SwarmInv digest K (s.put i n (if n.phase.peerJob.isSome then some w' else none)) := by
  obtain ⟨job, hold⟩ := hs.linked i w hw
  obtain ⟨hserving, hheard⟩ := step_heard hold.fetches hpeer hstep
  have hn : NodeInv digest K n := step_nodeInv (hs.node i) hK hstep
  split_ifs with hsome
  · have hnew := hlinked job hold hheard hsome
    refine hs.put hn ?_ ?_ (Or.inl hserving)
    · rintro v ⟨⟩
      exact ⟨job, hnew⟩
    · rintro v ⟨⟩ hrest
      obtain rfl := hleft hrest
      exact hs.waits_update (Or.inl hserving) hw (hnew.fetches.trans hold.fetches.symm) hrest
  · exact hs.put hn (by simp) (by simp) (Or.inl hserving)

omit [DecidableEq ι] in
theorem Promised.read {sha256 : Str} {h body : Bytes} (hp : Promised digest K sha256 w h)
    (hw : w.rest = some body) (n : ℕ) :
    Promised digest K sha256 { w with rest := some (body.drop n) } (h ++ body.take n) := by
  obtain ⟨content, hK, hsha, hsize, hrest⟩ := hp
  rw [hw] at hrest
  refine ⟨content, hK, hsha, hsize, ?_⟩
  simpa only [List.append_assoc, List.take_append_drop] using hrest

omit [DecidableEq ι] in
/-- A body of the announced length is the whole content. -/
theorem Promised.whole {sha256 : Str} {h : Bytes} (hp : Promised digest K sha256 w h)
    (hw : w.rest = some []) (hsize : h.length = w.size) : h ∈ K ∧ (digest h).1 = sha256 := by
  obtain ⟨content, hK, hsha, hlength, hrest⟩ := hp
  rw [hw] at hrest
  simp only [List.append_nil] at hrest
  obtain rfl := hrest.eq_of_length (hsize.trans hlength.symm)
  exact ⟨hK, hsha⟩

theorem SwarmInv.hearChunk (hs : SwarmInv digest K s)
    (hK : ∀ h ∈ (s.node i).phase.checked digest, h ∈ K) {status size take : ℕ} {body : Bytes}
    (hw : s.wire i = some ⟨j, status, size, some body⟩)
    (hstep : step digest (ownIp i) (s.node i) (.transfer (.peerChunk (body.take take))) = some n) :
    SwarmInv digest K (s.put i n (if n.phase.peerJob.isSome then
      some ⟨j, status, size, some (body.drop take)⟩ else none)) := by
  refine hs.hear hK hw rfl hstep nofun ?_
  intro job hold hheard _
  generalize (s.node i).phase = phase at hold hheard
  generalize n.phase = phase' at hheard
  cases hheard with
  | chunk fh seq h =>
    exact ⟨rfl, fun _ => hold.status nofun,
      fun hd hstatus => Promised.read (hold.promised hd hstatus) rfl take⟩

theorem SwarmInv.hearStatus (hs : SwarmInv digest K s)
    (hK : ∀ h ∈ (s.node i).phase.checked digest, h ∈ K) (hw : s.wire i = some w)
    (hstep : step digest (ownIp i) (s.node i) (.transfer (.peerStatus w.status)) = some n) :
    SwarmInv digest K (s.put i n (if n.phase.peerJob.isSome then some w else none)) := by
  refine hs.hear hK hw rfl hstep (fun _ => rfl) ?_
  intro job hold hheard hsome
  generalize (s.node i).phase = phase at hold hheard
  generalize n.phase = phase' at hheard hsome
  cases hheard with
  | status =>
    split_ifs at hsome with hstatus
    · rw [if_pos hstatus]
      exact ⟨rfl, fun _ => hstatus, hold.promised⟩
    · cases hsome

theorem SwarmInv.hearClose (hs : SwarmInv digest K s)
    (hK : ∀ h ∈ (s.node i).phase.checked digest, h ∈ K) (hw : s.wire i = some w)
    (hrest : w.rest = some []) (hsize : (s.node i).phase.received.length = w.size)
    (hstep : step digest (ownIp i) (s.node i) (.transfer .closed) = some n) :
    SwarmInv digest K (s.put i n (if n.phase.peerJob.isSome then some w else none)) := by
  refine hs.hear hK hw rfl hstep (fun _ => rfl) ?_
  intro job hold hheard _
  generalize (s.node i).phase = phase at hold hheard hsize
  generalize n.phase = phase' at hheard
  cases hheard with
  | closed fh seq h =>
    exact ⟨rfl, fun _ => hold.status nofun,
      fun hd hstatus => Promised.whole (hold.promised hd hstatus) hrest hsize⟩

theorem swarmStep_inv (hinj : Set.InjOn digest K) {act : Act ι} (hs : SwarmInv digest K s)
    (hK : ∀ i, ∀ h ∈ (s.node i).phase.checked digest, h ∈ K)
    (h : swarmStep digest ownIp s act = some t) : SwarmInv digest K t := by
  cases act with
  | ask i j path statOk =>
    simp only [swarmStep] at h
    split at h
    case h_1 job hphase hwire =>
      split_ifs at h with hasks
      obtain ⟨n, hstep, rfl⟩ := Option.map_eq_some_iff.mp h
      exact hs.ask (hK j) hphase hasks hstep
    case h_2 => cases h
  | reply i sending =>
    simp only [swarmStep] at h
    split at h
    case h_1 j status size hw =>
      obtain ⟨n, hstep, rfl⟩ := Option.map_eq_some_iff.mp h
      exact hs.reply (hK j) hinj hw hstep
    case h_2 => cases h
  | status i =>
    simp only [swarmStep] at h
    split at h
    case h_1 w hw =>
      obtain ⟨n, hstep, rfl⟩ := Option.map_eq_some_iff.mp h
      rw [set_eq_put, hw]
      exact hs.hearStatus (hK i) hw hstep
    case h_2 => cases h
  | chunk i take =>
    simp only [swarmStep] at h
    split at h
    case h_1 j status size body hw =>
      split_ifs at h
      obtain ⟨n, hstep, rfl⟩ := Option.map_eq_some_iff.mp h
      have hnew := hs.hearChunk (hK i) hw hstep
      simpa only [Swarm.set, Swarm.put, Function.update_self, Function.update_idem] using hnew
    case h_2 => cases h
  | close i =>
    simp only [swarmStep] at h
    split at h
    case h_1 j status size hw =>
      split_ifs at h with hsize
      obtain ⟨n, hstep, rfl⟩ := Option.map_eq_some_iff.mp h
      rw [set_eq_put, hw]
      exact hs.hearClose (hK i) hw rfl hsize hstep
    case h_2 => cases h
  | own i event =>
    simp only [swarmStep] at h
    split_ifs at h with hpeer
    obtain ⟨n, hstep, rfl⟩ := Option.map_eq_some_iff.mp h
    have hown : event.fromPeer = false ∨ s.wire i = none := by
      rcases not_and_or.mp hpeer with h | h
      · exact Or.inl (Bool.eq_false_iff.mpr h)
      · exact Or.inr (Option.not_isSome_iff_eq_none.mp h)
    exact hs.own (hK i) hown hstep

omit [DecidableEq ι] in
theorem swarmInv_start (digest : Bytes → Digest) (K : Set Bytes) :
    SwarmInv digest K (Swarm.start : Swarm ι) where
  node _ := ⟨inv_start digest, nofun⟩
  linked := nofun
  waits := nofun

/-- Whatever is fetched, collected and lost, all nodes hold one file under a name, and what a
node has read in full from a peer is that file. -/
theorem agree_of_swarm (hinj : Set.InjOn digest K) {acts : List (Act ι)}
    (hK : Run.Along (swarmStep digest ownIp)
      (fun s _ => ∀ i, ∀ h ∈ (s.node i).phase.checked digest, h ∈ K) Swarm.start acts)
    (h : Run.exec (swarmStep digest ownIp) Swarm.start acts = some s) :
    (∀ i j name a b, IsDigest name → (s.node i).pool name = some a →
      (s.node j).pool name = some b → a = b ∧ (digest a).1 = name) ∧
    ∀ i w job hashed n, s.wire i = some w → (s.node i).phase = .checking job .peer hashed →
      IsDigest job.sha256 → ((s.node i).pool (tmpName job.sha256)).isSome →
      step digest (ownIp i) (s.node i) (.transfer (.renamed true)) = some n →
      n.ack = some job ∧ n.pool job.sha256 = some hashed ∧ (digest hashed).1 = job.sha256 ∧
        ∀ j content, (s.node j).pool job.sha256 = some content → content = hashed := by
  have hinv : SwarmInv digest K s :=
    Run.exec_invariant (fun _ _ _ hs hK => swarmStep_inv hinj hs hK) (swarmInv_start digest K) hK h
  have hsame : ∀ i name a, IsDigest name → (s.node i).pool name = some a →
      ∀ b ∈ K, (digest b).1 = name → a = b := by
    intro i name a hname ha b hb hsha
    have hdigest : (digest a).1 = name := (hinv.node i).intact name hname a ha
    exact hinj ((hinv.node i).among name hname a ha) hb (Subtype.ext (hdigest.trans hsha.symm))
  constructor
  · intro i j name a b hname ha hb
    refine ⟨?_, (hinv.node i).intact name hname a ha⟩
    exact hsame i name a hname ha b ((hinv.node j).among name hname b hb)
      ((hinv.node j).intact name hname b hb)
  · intro i w job hashed n hw hphase hd hsome hstep
    obtain ⟨job', hlinked⟩ := hinv.linked i w hw
    have hstaged := (hinv.node i).staged
    have hstatus := hlinked.status
    have hpromised := hlinked.promised
    have hfetches := hlinked.fetches
    rw [hphase] at hstaged hstatus hpromised hfetches
    cases hfetches
    obtain ⟨hashedK, hsha⟩ := hpromised hd (hstatus nofun)
    obtain ⟨content, hcontent⟩ := Option.isSome_iff_exists.mp hsome
    cases hstaged hd content hcontent
    obtain ⟨out, hout, rfl⟩ := Option.map_eq_some_iff.mp hstep
    simp only [hphase, serviceTransferJob, if_pos hsha, hcontent] at hout
    cases hout
    exact ⟨rfl, rename_dest .., hsha,
      fun j c hc => hsame j _ c hd hc hashed hashedK hsha⟩

/-- A node that asks a peer for a digest is answered with the file the peer has. -/
theorem swarmStep_ask {job : Job} {content : Bytes} {path : Str} {i j : ι}
    (hphase : (s.node i).phase = .peerConnect job) (hpath : path = "/pool/".toList ++ job.sha256)
    (hwire : s.wire i = none) (hd : IsDigest job.sha256) (hserving : (s.node j).serving = none)
    (hpool : (s.node j).pool job.sha256 = some content) :
    swarmStep digest ownIp s (.ask i j path true) =
      some ⟨Function.update s.node j ⟨(s.node j).pool, (s.node j).phase, none,
          some ⟨path, job.sha256, content.length⟩, none⟩,
        Function.update s.wire i (some ⟨j, 200, content.length, none⟩)⟩ := by
  have hget : doGet (s.node j).pool path true = .inr ⟨path, job.sha256, content.length⟩ := by
    rw [doGet, hpath, sha256Re_pool hd]
    simp only [hpool, if_true]
  simp only [swarmStep, hphase, hwire, if_pos (show Asks job path from fun _ => hpath), step,
    hserving, hget, Option.map_some, answered]

/-- A file of one byte, stored through the relay by one node and fetched by the other. -/
def fetchRun : List (Act Bool) :=
  let zeros : Str := List.replicate 64 '0'
  let path : Str := "/pool/".toList ++ zeros
  [.own true (.transfer (.job ⟨.str "a", zeros, 1, none⟩ false)),
   .own true (.transfer (.opened (some (tmpName zeros)))),
   .own true (.transfer (.relayChunk 200 [104])),
   .own true (.transfer .closed), .own true (.transfer (.renamed true)),
   .own true (.transfer .posted),
   .own false (.transfer (.job ⟨.str "b", zeros, 1, some "100.64.0.7".toList⟩ false)),
   .ask false true path true, .status false,
   .own false (.transfer (.opened (some (tmpName zeros)))),
   .reply false .complete, .chunk false 65536, .close false]

/-- `fetchRun` up to the request. -/
def seeded : Swarm Bool :=
  (Run.exec (swarmStep zeroDigest fun _ => none) Swarm.start (fetchRun.take 7)).getD Swarm.start

def requested : Swarm Bool :=
  let sha256 := (zeroDigest []).1
  let n := seeded.node true
  ⟨Function.update seeded.node true
      ⟨n.pool, n.phase, none, some ⟨"/pool/".toList ++ sha256, sha256, 1⟩, none⟩,
    Function.update seeded.wire false (some ⟨true, 200, 1, none⟩)⟩

theorem exec_seeded :
    Run.exec (swarmStep zeroDigest fun _ => none) Swarm.start (fetchRun.take 7) = some seeded := by
  have hsome : (Run.exec (swarmStep zeroDigest fun _ => none) Swarm.start
      (fetchRun.take 7)).isSome := by decide +kernel
  obtain ⟨s, hs⟩ := Option.isSome_iff_exists.mp hsome
  rw [seeded, hs, Option.getD_some]

theorem swarmStep_seeded : swarmStep zeroDigest (fun _ => none) seeded
    (.ask false true ("/pool/".toList ++ (zeroDigest []).1) true) = some requested := by
  have hphase : (seeded.node false).phase =
      .peerConnect ⟨.str "b", (zeroDigest []).1, 1, some "100.64.0.7".toList⟩ := rfl
  have hpool : (seeded.node true).pool (zeroDigest []).1 = some [104] := by decide +kernel
  have hwire : seeded.wire false = none := Option.isNone_iff_eq_none.mp (by decide +kernel)
  have hserving : (seeded.node true).serving = none :=
    Option.isNone_iff_eq_none.mp (by decide +kernel)
  exact swarmStep_ask hphase rfl hwire (zeroDigest []).2 hserving hpool

theorem agree_of_swarm_fetchRun :
    ∃ s, Run.exec (swarmStep zeroDigest fun _ : Bool => none) Swarm.start fetchRun = some s ∧
      (∀ i j name a b, IsDigest name → (s.node i).pool name = some a →
        (s.node j).pool name = some b → a = b ∧ (zeroDigest a).1 = name) ∧
      ∀ i w job hashed n, s.wire i = some w → (s.node i).phase = .checking job .peer hashed →
        IsDigest job.sha256 → ((s.node i).pool (tmpName job.sha256)).isSome →
        step zeroDigest none (s.node i) (.transfer (.renamed true)) = some n →
        n.ack = some job ∧ n.pool job.sha256 = some hashed ∧ (zeroDigest hashed).1 = job.sha256 ∧
          ∀ j content, (s.node j).pool job.sha256 = some content → content = hashed := by
  have hsplit : fetchRun = fetchRun.take 7 ++
      .ask false true ("/pool/".toList ++ (zeroDigest []).1) true :: fetchRun.drop 8 := rfl
  have hsome : (Run.exec (swarmStep zeroDigest fun _ => none) requested
      (fetchRun.drop 8)).isSome := by decide +kernel
  obtain ⟨s, hs⟩ := Option.isSome_iff_exists.mp hsome
  have hrun : Run.exec (swarmStep zeroDigest fun _ => none) Swarm.start fetchRun = some s := by
    rw [hsplit, Run.exec_append, exec_seeded, Option.bind_some, Run.exec, swarmStep_seeded,
      Option.bind_some, hs]
  refine ⟨s, hrun, agree_of_swarm (Set.injOn_singleton zeroDigest [104]) ?_ hrun⟩
  rw [hsplit, Run.along_append_iff]
  refine ⟨by decide +kernel, fun t ht => ?_⟩
  obtain rfl := Option.some.inj (exec_seeded.symm.trans ht)
  refine ⟨by decide +kernel, fun u hu => ?_⟩
  obtain rfl := Option.some.inj (swarmStep_seeded.symm.trans hu)
  decide +kernel

end Swarm

end HadcdAgent.Storage
