import HadcdAgent.AgentState.Text

/-!
# The identity of a node

`Agent.ensure_enrolled` (`agent/agent.py`) over the life of the state file of `AgentState`
(`agent/state.py`): registrations with the backend, saves that are cut off, kills and restarts,
but no power cuts.
-/

namespace HadcdAgent.AgentState

open Lib

/-! ### The source -/

/-- How the registration ends: the backend has not registered the node, it has but its answer
is of no use, or it has sent an identity. -/
inductive Registration where
  | refused
  | lost (nodeId nodeToken : Str)
  | answered (nodeId nodeToken : Str)

/-- The identity that the backend has issued. -/
def Registration.issued : Registration → Option (Str × Str)
  | .refused => none
  | .lost nodeId nodeToken | .answered nodeId nodeToken => some (nodeId, nodeToken)

inductive EnrollError where
  | runtimeError
  | requestFailed
  | saveFailed (e : SaveError)

def identity (s : AgentState) : Option (Str × Str) :=
  match s.nodeId, s.nodeToken with
  | some nodeId, some nodeToken => some (nodeId, nodeToken)
  | _, _ => none

def identified (s : AgentState) (nodeId nodeToken : Str) : AgentState :=
  { s with nodeId := some nodeId, nodeToken := some nodeToken }

variable {π : Type} [DecidableEq π]

/-- `ensure_enrolled`, with what is left of the registration where one is sent. -/
def ensureEnrolled (fl : FloatText) (path tmp : π) (enrollmentToken : Str) (reply : Registration)
    (done : ℕ) (l : Life π) : Life π × Option Registration × Except EnrollError Unit :=
  if l.memory.enrolled then (l, none, .ok ())
  else if enrollmentToken = [] then (l, none, .error .runtimeError)
  else
    match reply with
    | .refused | .lost .. => (l, some reply, .error .requestFailed)
    | .answered nodeId nodeToken =>
      let s := identified l.memory nodeId nodeToken
      let r := saveTo (jsonText fl) path tmp s done l.disk
      (l.stored s r.1 r.2, some reply, r.2.mapError .saveFailed)

/-! ### The run -/

/-- `registered` are the identities that the backend has issued. -/
structure Enrollment (π : Type) where
  life : Life π
  registered : List (Str × Str)

def Enrollment.start : Enrollment π := ⟨Life.start, []⟩

inductive EnrollEvent (π : Type) where
  | enroll (enrollmentToken : Str) (reply : Registration) (tmp : π) (done : ℕ)
  | killed (nodeId nodeToken : Str) (tmp : π) (done : ℕ)
  | own (event : LifeEvent π)

/-- What else the process does keeps the identity in its memory. -/
def OwnWay (s : AgentState) : LifeEvent π → Prop
  | .become t => t.nodeId = s.nodeId ∧ t.nodeToken = s.nodeToken
  | .powerCut _ => False
  | _ => True

instance (s : AgentState) : (event : LifeEvent π) → Decidable (OwnWay s event)
  | .become t => inferInstanceAs (Decidable (t.nodeId = s.nodeId ∧ t.nodeToken = s.nodeToken))
  | .powerCut _ => .isFalse id
  | .save .. | .record .. | .restart | .killed .. => .isTrue trivial

/-- An error ends the process, and the next one starts; so does a kill within the save. -/
def enrollStep (fl : FloatText) (path : π) (w : Enrollment π) : EnrollEvent π → Option (Enrollment π)
  | .enroll enrollmentToken reply tmp done =>
    if IsTemp path tmp w.life.disk then
      let r := ensureEnrolled fl path tmp enrollmentToken reply done w.life
      let registered := w.registered ++ (r.2.1.bind Registration.issued).toList
      match r.2.2 with
      | .ok () => some ⟨r.1, registered⟩
      | .error _ => some ⟨r.1.restart fl path, registered⟩
    else none
  | .killed nodeId nodeToken tmp done =>
    if IsTemp path tmp w.life.disk ∧ w.life.memory.enrolled = false then
      let l := { w.life with memory := identified w.life.memory nodeId nodeToken }
      some ⟨(l.torn fl path tmp done).restart fl path, w.registered ++ [(nodeId, nodeToken)]⟩
    else none
  | .own event =>
    if OwnWay w.life.memory event then
      (lifeStep fl path w.life event).map fun l => { w with life := l }
    else none

/-- All that was saved has the identity issued last. -/
structure Filed (fl : FloatText) (path : π) (w : Enrollment π) : Prop where
  life : LifeInv fl path w.life
  whole : w.life.whole = true
  saved : ∀ s ∈ w.life.log, identity s = w.registered.getLast?

/-- The memory has it, too, since the first save. -/
structure Identified (fl : FloatText) (path : π) (w : Enrollment π) : Prop
    extends Filed fl path w where
  memory : identity w.life.memory = if w.life.log = [] then none else w.registered.getLast?

section

variable {fl : FloatText} {path tmp : π} {l l' : Life π} {s : AgentState} {done : ℕ}
  {w w' : Enrollment π}

omit [DecidableEq π] in
theorem identified_start : Identified fl path (Enrollment.start : Enrollment π) :=
  ⟨⟨lifeInv_start fl path, rfl, nofun⟩, rfl⟩

theorem identity_of_save {d d' : Disk π UInt8}
    (h : saveTo (jsonText fl) path tmp s done d = (d', .ok ())) : identity s ≠ none := by
  obtain ⟨nodeId, nodeToken, hid, htoken, -⟩ := saveTo_eq_ok h
  rw [identity, hid, htoken]
  exact Option.some_ne_none _

theorem identity_congr {t : AgentState} (hid : t.nodeId = s.nodeId)
    (htoken : t.nodeToken = s.nodeToken) : identity t = identity s := by
  rw [identity, identity, hid, htoken]

theorem identity_eq_none (h : s.enrolled = false) : identity s = none := by
  obtain ⟨nodeId, nodeToken, saved, models⟩ := s
  cases nodeId <;> cases nodeToken <;> first | rfl | cases h

omit [DecidableEq π] in
theorem restart_log (l : Life π) :
    (l.restart fl path).log = l.log ∧ (l.restart fl path).whole = l.whole := by
  rw [Life.restart]
  split
  · exact ⟨rfl, rfl⟩
  · exact ⟨rfl, rfl⟩

omit [DecidableEq π] in
/-- A start remembers the state saved last. -/
theorem restart_memory (hinv : LifeInv fl path l) (hwhole : l.whole = true) :
    (l.restart fl path).memory = l.log.getLast?.getD new := by
  have hload := hinv.stored.load
  cases hlast : l.log.getLast? with
  | none =>
    rw [hlast] at hload
    rw [Life.restart, hload]
    rfl
  | some s =>
    rw [hlast] at hload
    rcases hload with hload | ⟨hcut, -⟩
    · rw [Life.restart, hload]
      rfl
    · rw [hwhole] at hcut
      cases hcut

omit [DecidableEq π] in
theorem Filed.restart (h : Filed fl path w) :
    Identified fl path { w with life := w.life.restart fl path } := by
  obtain ⟨hlog, hwhole⟩ := @restart_log _ fl path w.life
  have hmemory := restart_memory h.life h.whole
  refine ⟨⟨h.life.restart, hwhole.trans h.whole, fun s hs => h.saved s (hlog ▸ hs)⟩, ?_⟩
  rw [hlog, hmemory]
  cases hlast : w.life.log.getLast? with
  | none =>
    rw [if_pos (List.getLast?_eq_none_iff.mp hlast)]
    rfl
  | some s =>
    have hne : w.life.log ≠ [] := by
      intro hnil
      rw [hnil] at hlast
      cases hlast
    rw [if_neg hne]
    exact h.saved s (List.mem_of_getLast? hlast)

omit [DecidableEq π] in
theorem ne_nil_of_identity (h : Identified fl path w) (hid : identity w.life.memory ≠ none) :
    w.life.log ≠ [] := by
  intro hnil
  have hmemory := h.memory
  rw [if_pos hnil] at hmemory
  exact hid hmemory

/-- A save by a process that has its identity already. -/
theorem Identified.stored (h : Identified fl path w) (htemp : IsTemp path tmp w.life.disk)
    (hp : Printable fl s) (hs : identity s = identity w.life.memory) {d' : Disk π UInt8}
    {r : Except SaveError Unit} (hsave : saveTo (jsonText fl) path tmp s done w.life.disk = (d', r)) :
    Identified fl path { w with life := w.life.stored s d' r } := by
  have hinv : LifeInv fl path (w.life.stored s d' r) := h.life.afterSave htemp hp hsave
  cases r with
  | error e => exact ⟨⟨hinv, h.whole, h.saved⟩, hs.trans h.memory⟩
  | ok u =>
    have hid : identity w.life.memory ≠ none := hs ▸ identity_of_save hsave
    have hlast : identity s = w.registered.getLast? := by
      rw [hs, h.memory, if_neg (ne_nil_of_identity h hid)]
    refine ⟨⟨hinv, rfl, fun t ht => ?_⟩, ?_⟩
    · rcases List.mem_append.mp ht with ht | ht
      · exact h.saved t ht
      · rw [List.mem_singleton.mp ht]
        exact hlast
    · have hne : w.life.log ++ [s] ≠ [] := by simp
      exact hlast.trans (if_neg hne).symm

/-- A kill within a save leaves the state saved before it or the one it has in hand. -/
theorem torn_log (fl : FloatText) (path tmp : π) (done : ℕ) (l : Life π) :
    ((l.torn fl path tmp done).log = l.log ∨
      identity l.memory ≠ none ∧ (l.torn fl path tmp done).log = l.log ++ [l.memory]) ∧
      (l.whole = true → (l.torn fl path tmp done).whole = true) := by
  rw [Life.torn]
  split
  · next nodeId nodeToken hid htoken =>
    by_cases hall : (saveSteps (jsonText fl) path tmp nodeId nodeToken l.memory).length ≤ done
    · simp only [if_pos hall]
      refine ⟨Or.inr ⟨?_, rfl⟩, fun _ => rfl⟩
      rw [identity, hid, htoken]
      exact Option.some_ne_none _
    · simp only [if_neg hall]
      exact ⟨Or.inl rfl, id⟩
  · exact ⟨Or.inl rfl, id⟩

theorem Identified.own (h : Identified fl path w) {event : LifeEvent π}
    (hown : OwnWay w.life.memory event) (hl : lifeStep fl path w.life event = some l') :
    Identified fl path { w with life := l' } := by
  have hinv : LifeInv fl path l' := lifeStep_inv h.life hl
  cases event with
  | become t =>
    simp only [lifeStep] at hl
    split_ifs at hl
    cases hl
    exact ⟨⟨hinv, h.whole, h.saved⟩, (identity_congr hown.1 hown.2).trans h.memory⟩
  | save tmp done =>
    simp only [lifeStep] at hl
    split_ifs at hl with htemp
    cases hl
    exact h.stored htemp h.life.printable rfl rfl
  | record tmp model done =>
    simp only [lifeStep] at hl
    split_ifs at hl with htemp hnew
    · cases hl
      have hrecord : recordCachedModel (jsonText fl) path tmp w.life.memory model done w.life.disk =
          (cache w.life.memory model,
            saveTo (jsonText fl) path tmp (cache w.life.memory model) done w.life.disk) := if_pos hnew
      have hp : Printable fl (cache w.life.memory model) := h.life.printable
      rw [hrecord]
      exact h.stored htemp hp (identity_congr rfl rfl) rfl
    · cases hl
      exact h
  | restart =>
    cases hl
    exact h.toFiled.restart
  | killed tmp done =>
    simp only [lifeStep] at hl
    split_ifs at hl with htemp
    obtain ⟨hlog, hwhole⟩ := torn_log fl path tmp done w.life
    have hfiled : Filed fl path { w with life := w.life.torn fl path tmp done } := by
      refine ⟨h.life.torn htemp done, hwhole h.whole, fun t ht => ?_⟩
      rcases hlog with hsame | ⟨hid, hmore⟩
      · exact h.saved t (hsame ▸ ht)
      · have hmem : t ∈ w.life.log ++ [w.life.memory] := hmore ▸ ht
        rcases List.mem_append.mp hmem with ht | ht
        · exact h.saved t ht
        · rw [List.mem_singleton.mp ht, h.memory, if_neg (ne_nil_of_identity h hid)]
    cases hl
    exact hfiled.restart
  | powerCut keep => exact hown.elim

omit [DecidableEq π] in
/-- Where nothing is saved yet, what is issued does not matter. -/
theorem filed_of_nil (hinv : LifeInv fl path l) (hwhole : l.whole = true) (hlog : l.log = [])
    (registered : List (Str × Str)) : Filed fl path ⟨l, registered⟩ :=
  ⟨hinv, hwhole, by rw [hlog]; nofun⟩

omit [DecidableEq π] in
/-- What was saved last has an identity. -/
theorem registered_ne_none (h : Filed fl path w) (hne : w.life.log ≠ []) :
    w.registered.getLast? ≠ none := by
  obtain ⟨s, hlast⟩ : ∃ s, w.life.log.getLast? = some s :=
    Option.ne_none_iff_exists'.mp fun hnone => hne (List.getLast?_eq_none_iff.mp hnone)
  have hstored := h.life.stored
  rw [hlast] at hstored
  obtain ⟨-, nodeId, nodeToken, -, hid, htoken, -⟩ := hstored
  rw [← h.saved s (List.mem_of_getLast? hlast), identity, hid, htoken]
  exact Option.some_ne_none _

omit [DecidableEq π] in
theorem nil_of_not_enrolled (h : Identified fl path w) (henrolled : w.life.memory.enrolled = false) :
    w.life.log = [] := by
  by_contra hne
  have hmemory := h.memory
  rw [if_neg hne, identity_eq_none henrolled] at hmemory
  exact registered_ne_none h.toFiled hne hmemory.symm

/-- A registration that is answered: the save completes, or the process ends without one. -/
theorem Identified.answered (h : Identified fl path w) (htemp : IsTemp path tmp w.life.disk)
    (henrolled : w.life.memory.enrolled = false) (nodeId nodeToken : Str) {d' : Disk π UInt8}
    {r : Except SaveError Unit}
    (hsave : saveTo (jsonText fl) path tmp (identified w.life.memory nodeId nodeToken) done
      w.life.disk = (d', r)) :
    let l := w.life.stored (identified w.life.memory nodeId nodeToken) d' r
    let registered := w.registered ++ [(nodeId, nodeToken)]
    Filed fl path ⟨l, registered⟩ ∧ (r = .ok () → Identified fl path ⟨l, registered⟩) := by
  have hlog := nil_of_not_enrolled h henrolled
  have hprint : Printable fl (identified w.life.memory nodeId nodeToken) := h.life.printable
  have hinv := h.life.afterSave htemp hprint hsave
  cases r with
  | error e => exact ⟨filed_of_nil hinv h.whole hlog _, nofun⟩
  | ok u =>
    have hlast : identity (identified w.life.memory nodeId nodeToken) =
        (w.registered ++ [(nodeId, nodeToken)]).getLast? := by
      rw [List.getLast?_concat]
      rfl
    have hfiled : Filed fl path ⟨w.life.stored (identified w.life.memory nodeId nodeToken) d' (.ok u),
        w.registered ++ [(nodeId, nodeToken)]⟩ := by
      refine ⟨hinv, rfl, fun t ht => ?_⟩
      have ht' : t ∈ w.life.log ++ [identified w.life.memory nodeId nodeToken] := ht
      rw [hlog, List.nil_append] at ht'
      rw [List.mem_singleton.mp ht']
      exact hlast
    refine ⟨hfiled, fun _ => ⟨hfiled, ?_⟩⟩
    have hne : w.life.log ++ [identified w.life.memory nodeId nodeToken] ≠ [] := by simp
    exact hlast.trans (if_neg hne).symm

theorem Identified.enroll (h : Identified fl path w) {enrollmentToken : Str} {reply : Registration}
    (hw : enrollStep fl path w (.enroll enrollmentToken reply tmp done) = some w') :
    Identified fl path w' := by
  simp only [enrollStep] at hw
  split_ifs at hw with htemp
  cases henrolled : w.life.memory.enrolled with
  | true =>
    simp only [ensureEnrolled, henrolled, if_true] at hw
    cases hw
    simpa using h
  | false =>
    have hlog := nil_of_not_enrolled h henrolled
    by_cases htoken : enrollmentToken = []
    · simp only [ensureEnrolled, henrolled, Bool.false_eq_true, if_false, if_pos htoken] at hw
      cases hw
      exact (filed_of_nil h.life h.whole hlog (w.registered ++ [])).restart
    · simp only [ensureEnrolled, henrolled, Bool.false_eq_true, if_false, if_neg htoken] at hw
      cases reply with
      | refused =>
        cases hw
        exact (filed_of_nil h.life h.whole hlog _).restart
      | lost nodeId nodeToken =>
        cases hw
        exact (filed_of_nil h.life h.whole hlog _).restart
      | answered nodeId nodeToken =>
        obtain ⟨⟨d', r⟩, hsave⟩ : ∃ x, saveTo (jsonText fl) path tmp
            (identified w.life.memory nodeId nodeToken) done w.life.disk = x := ⟨_, rfl⟩
        obtain ⟨hfiled, hok⟩ := h.answered htemp henrolled nodeId nodeToken hsave
        simp only [hsave] at hw
        cases r with
        | ok u =>
          cases hw
          exact hok rfl
        | error e =>
          cases hw
          exact hfiled.restart

theorem Identified.killed (h : Identified fl path w) {nodeId nodeToken : Str}
    (hw : enrollStep fl path w (.killed nodeId nodeToken tmp done) = some w') :
    Identified fl path w' := by
  simp only [enrollStep] at hw
  split_ifs at hw with hguard
  obtain ⟨htemp, henrolled⟩ := hguard
  cases hw
  have hlog := nil_of_not_enrolled h henrolled
  have hinv : LifeInv fl path
      { w.life with memory := identified w.life.memory nodeId nodeToken } :=
    ⟨h.life.printable, h.life.stored, h.life.up⟩
  obtain ⟨hcases, hwhole⟩ := torn_log fl path tmp done
    { w.life with memory := identified w.life.memory nodeId nodeToken }
  have hfiled : Filed fl path
      ⟨Life.torn fl path tmp done { w.life with memory := identified w.life.memory nodeId nodeToken },
        w.registered ++ [(nodeId, nodeToken)]⟩ := by
    refine ⟨hinv.torn htemp done, hwhole h.whole, fun t ht => ?_⟩
    rcases hcases with hsame | ⟨-, hmore⟩
    · have ht' : t ∈ w.life.log := hsame ▸ ht
      rw [hlog] at ht'
      cases ht'
    · have ht' : t ∈ w.life.log ++ [identified w.life.memory nodeId nodeToken] := hmore ▸ ht
      rw [hlog, List.nil_append] at ht'
      rw [List.mem_singleton.mp ht', List.getLast?_concat]
      rfl
  exact hfiled.restart

theorem identified_step {event : EnrollEvent π} (h : Identified fl path w)
    (hw : enrollStep fl path w event = some w') : Identified fl path w' := by
  cases event with
  | enroll enrollmentToken reply tmp done => exact h.enroll hw
  | killed nodeId nodeToken tmp done => exact h.killed hw
  | own event =>
    simp only [enrollStep] at hw
    split_ifs at hw with hown
    obtain ⟨l, hl, rfl⟩ := Option.map_eq_some_iff.mp hw
    exact h.own hown hl

/-! ### Once an identity is saved -/

theorem lifeStep_log {event : LifeEvent π} (h : lifeStep fl path l event = some l') :
    l.log <+: l'.log := by
  have hstored : ∀ s d r, l.log <+: (l.stored s d r).log := by
    intro s d r
    cases r with
    | ok u => exact List.prefix_append l.log [s]
    | error e => exact List.prefix_refl l.log
  cases event with
  | become s =>
    simp only [lifeStep] at h
    split_ifs at h
    cases h
    exact List.prefix_refl l.log
  | save tmp done =>
    simp only [lifeStep] at h
    split_ifs at h
    cases h
    exact hstored _ _ _
  | record tmp model done =>
    simp only [lifeStep] at h
    split_ifs at h
    · cases h
      exact hstored _ _ _
    · cases h
      exact List.prefix_refl l.log
  | restart =>
    cases h
    rw [(restart_log l).1]
  | killed tmp done =>
    simp only [lifeStep] at h
    split_ifs at h
    cases h
    rw [(restart_log _).1]
    obtain ⟨hsame | ⟨-, hmore⟩, -⟩ := torn_log fl path tmp done l
    · rw [hsame]
    · rw [hmore]
      exact List.prefix_append l.log _
  | powerCut keep =>
    cases h
    rw [(restart_log _).1]

/-- The backend is not asked again. -/
theorem settled_step {event : EnrollEvent π} (h : Identified fl path w) (hne : w.life.log ≠ [])
    (hw : enrollStep fl path w event = some w') :
    w'.registered = w.registered ∧ w'.life.log ≠ [] := by
  have henrolled : w.life.memory.enrolled = true := by
    by_contra hnot
    exact hne (nil_of_not_enrolled h (by simpa using hnot))
  cases event with
  | enroll enrollmentToken reply tmp done =>
    simp only [enrollStep] at hw
    split_ifs at hw
    simp only [ensureEnrolled, henrolled, if_true] at hw
    cases hw
    exact ⟨List.append_nil _, hne⟩
  | killed nodeId nodeToken tmp done =>
    simp [enrollStep, henrolled] at hw
  | own event =>
    simp only [enrollStep] at hw
    split_ifs at hw
    obtain ⟨l, hl, rfl⟩ := Option.map_eq_some_iff.mp hw
    obtain ⟨more, hmore⟩ := lifeStep_log hl
    exact ⟨rfl, hmore ▸ List.append_ne_nil_of_left_ne_nil hne more⟩

/-- **Once a state was saved, the node is the one that was registered last, for good: no process
registers again, all that is saved has that identity, and every start finds it.** -/
theorem identity_of_exec {events more : List (EnrollEvent π)}
    (hrun : Run.exec (enrollStep fl path) Enrollment.start events = some w)
    (hsaved : w.life.log ≠ []) (hmore : Run.exec (enrollStep fl path) w more = some w') :
    ∃ i, w.registered.getLast? = some i ∧ w'.registered = w.registered ∧
      identity w'.life.memory = some i ∧ (∀ s ∈ w'.life.log, identity s = some i) ∧
      w'.life.raised = false ∧
      ∃ s, new.load (found (jsonText fl) path w'.life.disk) = .ok (true, s) ∧
        identity s = some i := by
  have h : Identified fl path w :=
    Run.exec_preserves (fun _ _ _ hi ht => identified_step hi ht) identified_start hrun
  obtain ⟨h', hregistered, hlog⟩ :
      Identified fl path w' ∧ w'.registered = w.registered ∧ w'.life.log ≠ [] := by
    refine @Run.exec_preserves _ _ (enrollStep fl path) (fun v => Identified fl path v ∧
      v.registered = w.registered ∧ v.life.log ≠ []) (fun v _ u hv hu => ?_) w w' more
      ⟨h, rfl, hsaved⟩ hmore
    obtain ⟨hsame, hne⟩ := settled_step hv.1 hv.2.2 hu
    exact ⟨identified_step hv.1 hu, hsame.trans hv.2.1, hne⟩
  obtain ⟨i, hi⟩ := Option.ne_none_iff_exists'.mp (registered_ne_none h.toFiled hsaved)
  have hi' : w'.registered.getLast? = some i := hregistered ▸ hi
  refine ⟨i, hi, hregistered, ?_, fun s hs => (h'.saved s hs).trans hi', h'.life.up, ?_⟩
  · rw [h'.memory, if_neg hlog, hi']
  · obtain ⟨s, hlast⟩ : ∃ s, w'.life.log.getLast? = some s :=
      Option.ne_none_iff_exists'.mp fun hnone => hlog (List.getLast?_eq_none_iff.mp hnone)
    have hload := h'.life.stored.load
    rw [hlast] at hload
    refine ⟨s, ?_, (h'.saved s (List.mem_of_getLast? hlast)).trans hi'⟩
    rcases hload with hload | ⟨hcut, -⟩
    · exact hload
    · rw [h'.whole] at hcut
      cases hcut

end

/-- An answer is lost, a save is cut off, and the third registration is kept. -/
def thirdTime : List (EnrollEvent Str) :=
  [.enroll "secret" (.lost "1" "a") "t" 0, .enroll "secret" (.answered "2" "b") "t" 9,
    .enroll "secret" (.answered "3" "c") "t" 1000]

def afterwards : List (EnrollEvent Str) :=
  [.own (.killed "t" 4), .enroll "secret" (.answered "4" "d") "u" 1000,
    .own (.record "u" "phi3" 1000), .own .restart]

theorem identity_of_exec_thirdTime : ∃ w w' : Enrollment Str,
    Run.exec (enrollStep tenths "state.json".toList) Enrollment.start thirdTime = some w ∧
      Run.exec (enrollStep tenths "state.json".toList) w afterwards = some w' ∧
        ∃ i, w.registered.getLast? = some i ∧ w'.registered = w.registered ∧
          identity w'.life.memory = some i := by
  have hlog : (Run.exec (enrollStep tenths "state.json".toList) Enrollment.start thirdTime).any
      (fun w => w.life.log ≠ []) = true := by decide +kernel
  obtain ⟨w, hrun, hsaved⟩ := (Option.any_eq_true _ _).mp hlog
  have hall : (Run.exec (enrollStep tenths "state.json".toList) Enrollment.start
      (thirdTime ++ afterwards)).isSome = true := by decide +kernel
  rw [Run.exec_append, hrun, Option.bind_some] at hall
  obtain ⟨w', hmore⟩ := Option.isSome_iff_exists.mp hall
  obtain ⟨i, hi, hregistered, hmemory, -⟩ := identity_of_exec hrun (of_decide_eq_true hsaved) hmore
  exact ⟨w, w', hrun, hmore, i, hi, hregistered, hmemory⟩

end HadcdAgent.AgentState
