import HadcdAgent.Lib.Json

/-!
# Session containers by name

`RentalSessionHandler` (`agent/rental_session_handler.py`) finds a session's
container by a name that holds the first eight characters of the session id.
`_stop_session` takes every container whose name contains that name,
`_reconcile_active_session` those that bear it.
-/

namespace HadcdAgent.Rental

open Lib

/-! ### Names -/

/-- `str(entry.get("session_id", ""))`; `str` is for values that are no strings. -/
def sessionIdOf (str : Json → Str) (entry : List (Str × Json)) : Str :=
  match lookup ("session_id" : Str) entry with
  | none => []
  | some (.str s) => s
  | some v => str v

def sessionPrefix : Str := "hadcd-session-".toList

/-- `f"hadcd-session-{session_id[:8]}"`. -/
def containerName (sessionId : Str) : Str := sessionPrefix ++ sessionId.take 8

theorem sessionPrefix_length : sessionPrefix.length = 14 := by decide

/-- The prefix begins with a letter that it does not repeat. -/
theorem sessionPrefix_head {k : ℕ} (h1 : 1 ≤ k) (h2 : k ≤ 8) :
    sessionPrefix[k]? ≠ sessionPrefix[0]? := by
  have hall : ∀ k ∈ List.range 9, 1 ≤ k → sessionPrefix[k]? ≠ sessionPrefix[0]? := by decide
  exact hall k (List.mem_range.mpr (by omega)) h1

/-- A session's name lies within another's only at its beginning. -/
theorem containerName_infix_iff (s t : Str) :
    containerName s <:+: containerName t ↔ s.take 8 <+: t.take 8 := by
  constructor
  · rintro ⟨before, rest, h⟩
    have hlen := congrArg List.length h
    have ht : (t.take 8).length ≤ 8 := List.length_take_le 8 t
    simp only [containerName, List.length_append, sessionPrefix_length] at hlen
    have hzero : before.length = 0 := by
      by_contra hne
      have hat : (containerName t)[before.length]? = sessionPrefix[0]? := by
        rw [← h, containerName, List.append_assoc, List.getElem?_append_right le_rfl,
          List.append_assoc, List.getElem?_append_left (by simp [sessionPrefix_length])]
        simp
      have hin : (containerName t)[before.length]? = sessionPrefix[before.length]? :=
        List.getElem?_append_left (by rw [sessionPrefix_length]; omega)
      exact sessionPrefix_head (by omega) (by omega) (hin.symm.trans hat)
    rw [List.length_eq_zero_iff.mp hzero] at h
    simp only [containerName, List.nil_append, List.append_assoc] at h
    exact ⟨rest, List.append_cancel_left h⟩
  · intro h
    exact ((List.prefix_append_right_inj sessionPrefix).mpr h).isInfix

theorem containerName_eq_iff (s t : Str) : containerName s = containerName t ↔ s.take 8 = t.take 8 :=
  List.append_right_inj sessionPrefix

/-! ### The Docker host -/

structure SessionContainer where
  sessionId : Str
  name : Str
  running : Bool
  named : name = containerName sessionId
  deriving DecidableEq

/-- Docker gives a name to one container at a time. -/
structure DockerHost where
  containers : List SessionContainer
  distinct : (containers.map SessionContainer.name).Nodup

/-- How Docker answers: `containers.list`, and for each container `stop` and
`reload`, may raise. -/
structure DockerIo where
  listWorks : Bool
  stopWorks : SessionContainer → Bool
  reloadWorks : SessionContainer → Bool

inductive DockerCall where
  | stop (c : SessionContainer)
  | remove (c : SessionContainer)

/-- `containers.list(all=True, filters={"name": text})`. -/
def listByName (host : DockerHost) (text : Str) : List SessionContainer :=
  host.containers.filter fun c => decide (text <:+: c.name)

/-! ### The source -/

/-- The calls of `_stop_session`; an error of one container goes on to the next. -/
def stopSession (host : DockerHost) (sessionId : Str) (io : DockerIo) : List DockerCall :=
  if io.listWorks then
    (listByName host (containerName sessionId)).flatMap fun c =>
      if io.stopWorks c then [.stop c, .remove c] else [.stop c]
  else []

def firstRunning (io : DockerIo) : List SessionContainer → Option SessionContainer
  | [] => none
  | c :: cs => if io.reloadWorks c then (if c.running then some c else firstRunning io cs) else none

/-- The container that `_reconcile_active_session` takes for the session's. -/
def findRunning (host : DockerHost) (sessionId : Str) (io : DockerIo) : Option SessionContainer :=
  if io.listWorks then
    firstRunning io ((listByName host (containerName sessionId)).filter
      fun c => c.name = containerName sessionId)
  else none

/-! ### Two sessions -/

/-- Stopping `s` leaves the container of `t` alone, and reconciling `s` does not take
it for its own. -/
structure Spares (host : DockerHost) (s t : Str) (stopIo reconcileIo : DockerIo) : Prop where
  stop : ∀ c ∈ host.containers, c.sessionId = t →
    DockerCall.stop c ∉ stopSession host s stopIo ∧
    DockerCall.remove c ∉ stopSession host s stopIo
  reconcile : ∀ c, findRunning host s reconcileIo = some c → c.sessionId ≠ t

/-- When Docker answers, `t` has no container under a name that goes on from the
name of `s`, and none that runs under the very name of `s`. -/
structure Apart (host : DockerHost) (s t : Str) (stopIo reconcileIo : DockerIo) : Prop where
  stop : stopIo.listWorks = true → s.take 8 <+: t.take 8 → ∀ c ∈ host.containers, c.sessionId ≠ t
  reconcile : reconcileIo.listWorks = true → s.take 8 = t.take 8 → ∀ c ∈ host.containers,
    c.sessionId = t → c.running = true → reconcileIo.reloadWorks c = false

theorem mem_listByName {host : DockerHost} {s : Str} {c : SessionContainer} :
    c ∈ listByName host (containerName s) ↔
      c ∈ host.containers ∧ s.take 8 <+: c.sessionId.take 8 := by
  unfold listByName
  rw [List.mem_filter, decide_eq_true_iff, c.named, containerName_infix_iff]

theorem stop_mem_stopSession {host : DockerHost} {s : Str} {io : DockerIo} {c : SessionContainer} :
    DockerCall.stop c ∈ stopSession host s io ↔
      io.listWorks = true ∧ c ∈ listByName host (containerName s) := by
  unfold stopSession
  by_cases hl : io.listWorks = true
  · simp only [hl, if_true, List.mem_flatMap, true_and]
    constructor
    · rintro ⟨c', hc', hmem⟩
      split at hmem
      · simp only [List.mem_cons, DockerCall.stop.injEq, List.not_mem_nil, or_false] at hmem
        rcases hmem with rfl | hmem
        · exact hc'
        · cases hmem
      · cases List.mem_singleton.mp hmem
        exact hc'
    · intro hc
      refine ⟨c, hc, ?_⟩
      split <;> simp
  · simp [hl]

theorem stop_of_remove {host : DockerHost} {s : Str} {io : DockerIo} {c : SessionContainer}
    (h : DockerCall.remove c ∈ stopSession host s io) : DockerCall.stop c ∈ stopSession host s io := by
  by_cases hl : io.listWorks = true
  · simp only [stopSession, hl, if_true] at h
    obtain ⟨c', hc', hmem⟩ := List.mem_flatMap.mp h
    have hc : c = c' := by
      split at hmem
      · simpa using hmem
      · simp at hmem
    rw [stop_mem_stopSession, hc]
    exact ⟨hl, hc'⟩
  · simp [stopSession, hl] at h

theorem filter_eq_singleton {α β : Type*} [DecidableEq β] {f : α → β} {l : List α}
    (hn : (l.map f).Nodup) {a : α} (ha : a ∈ l) : l.filter (fun b => f b = f a) = [a] := by
  induction l with
  | nil => cases ha
  | cons b l ih =>
    rw [List.map_cons, List.nodup_cons] at hn
    rcases List.mem_cons.mp ha with rfl | ha
    · have hrest : l.filter (fun b => f b = f a) = [] := by
        rw [List.filter_eq_nil_iff]
        intro b hb hfb
        exact hn.1 (of_decide_eq_true hfb ▸ List.mem_map_of_mem hb)
      rw [List.filter_cons_of_pos (by simp), hrest]
    · have hne : ¬ f b = f a := fun he => hn.1 (he ▸ List.mem_map_of_mem ha)
      rw [List.filter_cons_of_neg (by simpa using hne), ih hn.2 ha]

theorem exact_listByName (host : DockerHost) (s : Str) :
    (listByName host (containerName s)).filter (fun c => c.name = containerName s) =
      host.containers.filter fun c => c.name = containerName s := by
  rw [listByName, List.filter_filter]
  refine List.filter_congr fun c _ => ?_
  by_cases hc : c.name = containerName s <;> simp [hc]

theorem findRunning_eq_some {host : DockerHost} {s : Str} {io : DockerIo} {c : SessionContainer} :
    findRunning host s io = some c ↔ io.listWorks = true ∧ c ∈ host.containers ∧
      s.take 8 = c.sessionId.take 8 ∧ io.reloadWorks c = true ∧ c.running = true := by
  have hnamed : ∀ d : SessionContainer, d.name = containerName s ↔ s.take 8 = d.sessionId.take 8 := by
    intro d
    rw [d.named, containerName_eq_iff]
    exact eq_comm
  unfold findRunning
  by_cases hl : io.listWorks = true
  case neg => simp [hl]
  rw [if_pos hl, exact_listByName]
  by_cases hex : ∃ d ∈ host.containers, d.name = containerName s
  · obtain ⟨d, hd, hname⟩ := hex
    have hsingle := filter_eq_singleton host.distinct hd
    rw [hname] at hsingle
    rw [hsingle]
    have hd8 := (hnamed d).mp hname
    constructor
    · intro h
      simp only [firstRunning] at h
      split_ifs at h with hreload hrun
      cases h
      exact ⟨hl, hd, hd8, hreload, hrun⟩
    · rintro ⟨-, hc, hc8, hreload, hrun⟩
      have hmem : c ∈ [d] := by
        rw [← hsingle]
        exact List.mem_filter.mpr ⟨hc, by simpa using (hnamed c).mpr hc8⟩
      cases List.mem_singleton.mp hmem
      simp [firstRunning, hreload, hrun]
  · have hnil : host.containers.filter (fun d => d.name = containerName s) = [] := by
      rw [List.filter_eq_nil_iff]
      intro d hd hname
      exact hex ⟨d, hd, of_decide_eq_true hname⟩
    rw [hnil]
    refine iff_of_false (by simp [firstRunning]) ?_
    rintro ⟨-, hc, hc8, -⟩
    exact hex ⟨c, hc, (hnamed c).mpr hc8⟩

/-- For every set of session containers and every two session ids: `s` is handled
without touching `t` exactly when the two are apart. -/
theorem spares_iff_apart (host : DockerHost) (s t : Str) (stopIo reconcileIo : DockerIo) :
    Spares host s t stopIo reconcileIo ↔ Apart host s t stopIo reconcileIo := by
  constructor
  · intro h
    refine ⟨fun hl hpre c hc ht => ?_, fun hl h8 c hc ht hrun => ?_⟩
    · have hlisted : c ∈ listByName host (containerName s) :=
        mem_listByName.mpr ⟨hc, by rw [ht]; exact hpre⟩
      exact (h.stop c hc ht).1 (stop_mem_stopSession.mpr ⟨hl, hlisted⟩)
    · by_contra hreload
      have hfound : findRunning host s reconcileIo = some c :=
        findRunning_eq_some.mpr ⟨hl, hc, by rw [ht]; exact h8, by simpa using hreload, hrun⟩
      exact h.reconcile c hfound ht
  · intro h
    have hstop : ∀ c ∈ host.containers, c.sessionId = t →
        DockerCall.stop c ∉ stopSession host s stopIo := by
      intro c hc ht hmem
      obtain ⟨hl, hlisted⟩ := stop_mem_stopSession.mp hmem
      have hpre := (mem_listByName.mp hlisted).2
      rw [ht] at hpre
      exact h.stop hl hpre c hc ht
    refine ⟨fun c hc ht => ⟨hstop c hc ht, fun hmem => hstop c hc ht (stop_of_remove hmem)⟩, ?_⟩
    intro c hfound ht
    obtain ⟨hl, hc, h8, hreload, hrun⟩ := findRunning_eq_some.mp hfound
    rw [ht] at h8
    rw [h.reconcile hl h8 c hc ht hrun] at hreload
    cases hreload

theorem apart_of_take_ne {s t : Str} (hs : 8 ≤ s.length) (hne : s.take 8 ≠ t.take 8)
    (host : DockerHost) (stopIo reconcileIo : DockerIo) : Apart host s t stopIo reconcileIo := by
  refine ⟨fun _ hpre => absurd (hpre.eq_of_length_le ?_) hne, fun _ h8 => absurd h8 hne⟩
  have hlen : (s.take 8).length = 8 := List.length_take_of_le hs
  rw [hlen]
  exact List.length_take_le 8 t

def sessionContainer (sessionId : Str) : SessionContainer :=
  ⟨sessionId, containerName sessionId, true, rfl⟩

def dockerWorks : DockerIo := ⟨true, fun _ => true, fun _ => true⟩

/-- An entry without a session id, read as the empty one, stops every session. -/
theorem not_spares_missing_id :
    ¬ Spares ⟨[sessionContainer "3f2a9c71-5d".toList], List.nodup_singleton _⟩
      (sessionIdOf (fun _ => []) [("status", .str "stopping")]) "3f2a9c71-5d".toList
      dockerWorks dockerWorks := by
  intro h
  have hid : sessionIdOf (fun _ => []) [("status", .str "stopping")] = [] := by decide
  rw [hid] at h
  have happart := (spares_iff_apart _ _ _ _ _).mp h
  exact happart.stop rfl List.nil_prefix _ (List.mem_singleton_self _) rfl

end HadcdAgent.Rental
