import HadcdAgent.HeatSource.Rotation
import HadcdAgent.HeatSource.Setup

/-!
# The Ecobee state file from its setup on

`EcobeeHeatSource` (`agent/heat_source.py`) over the bytes of the state file: reads that
replace it, also ones that are cut off or killed on the way, and starts that load it. The
rotation of the token is refined by what happens on disk.
-/

namespace HadcdAgent.EcobeeSetup

open Lib Lib.PyStr HeatSource

/-! ### The source on disk -/

/-- `_load_refresh_token`: what the file holds, and the token. -/
def loadToken (fl : FloatText) (path : PurePath) (d : Disk PurePath UInt8) : Option (Json × Str) :=
  match JsonFile.read fl path d with
  | some (.value v) => (loadRefreshToken v).map fun token => (v, token)
  | _ => none

def payload (newToken : Json) (thermostatId : Str) : Json :=
  .obj [("refresh_token", newToken), ("thermostat_id", .str thermostatId)]

/-- The token that a read comes to write. -/
def rotated (py : Numbers) (s : EcobeeHeatSource) (i : EcobeeInput) : Option Json :=
  (tokenAnswer s i).bind fun kvs =>
    match lookup ("access_token" : Str) kvs, expiresAt py i.now kvs with
    | some _, .ok _ =>
      if isRotated s kvs then some (Json.get kvs "refresh_token") else none
    | _, _ => none

/-- `_persist_refresh_token` where the file system carries out `done` of its steps and refuses
the next. -/
def persistOn (fl : FloatText) (path : PurePath) (v : Json) (done : ℕ) (d : Disk PurePath UInt8) :
    Disk PurePath UInt8 × Except PyExc Unit :=
  match tempPath path with
  | none => (d, .error .valueError)
  | some tmp =>
    let steps := JsonFile.replaceSteps fl JsonText.spaced [] path tmp v
    (FileStep.run d (steps.take done), if steps.length ≤ done then .ok () else .error .osError)

/-! ### The life of the file -/

/-- `issued` are the refresh tokens that the server has sent, the setup's first. -/
structure Installed where
  source : EcobeeHeatSource
  disk : Disk PurePath UInt8
  issued : List Str

inductive Event where
  | read (i : EcobeeInput) (done : ℕ)
  | killed (i : EcobeeInput) (done : ℕ)
  | restart

/-- The disk behind a read, and how the write has ended for it. -/
def Installed.persist (fl : FloatText) (py : Numbers) (path : PurePath) (n : Installed)
    (i : EcobeeInput) (done : ℕ) : Disk PurePath UInt8 × Except PyExc Unit :=
  match rotated py n.source i with
  | none => (n.disk, .ok ())
  | some token => persistOn fl path (payload token n.source.thermostatId) done n.disk

def Installed.input (fl : FloatText) (py : Numbers) (path : PurePath) (n : Installed)
    (i : EcobeeInput) (done : ℕ) : EcobeeInput :=
  { i with persist := (n.persist fl py path i done).2 }

def Installed.read (fl : FloatText) (py : Numbers) (path : PurePath) (n : Installed)
    (i : EcobeeInput) (done : ℕ) : Installed where
  source := (n.source.read py (n.input fl py path i done)).1
  disk := (n.persist fl py path i done).1
  issued := n.issued ++ (issuedToken n.source i).toList

/-- A process that starts, with the settings of `s`. -/
def boot (fl : FloatText) (path : PurePath) (s : EcobeeHeatSource) (d : Disk PurePath UInt8)
    (issued : List Str) : Option Installed :=
  (loadToken fl path d).map fun r => ⟨{ s.fresh r.2 with stateFile := r.1 }, d, issued⟩

def Installed.restart (fl : FloatText) (path : PurePath) (n : Installed) : Option Installed :=
  boot fl path n.source n.disk n.issued

def step (fl : FloatText) (py : Numbers) (path : PurePath) (n : Installed) :
    Event → Option Installed
  | .read i done => some (n.read fl py path i done)
  | .killed i done => (n.read fl py path i done).restart fl path
  | .restart => n.restart fl path

/-- A rotated refresh token is a text. -/
def Texts (py : Numbers) (n : Installed) : Event → Prop
  | .read i _ | .killed i _ => ∀ token ∈ rotated py n.source i, isToken token ≠ none
  | .restart => True

/-- The read takes a rotated token, and its write goes through. -/
def Kept (fl : FloatText) (py : Numbers) (path : PurePath) (n : Installed) : Event → Prop
  | .read i done | .killed i done =>
    Rotates py ⟨n.source, []⟩ (.read (n.input fl py path i done))
  | .restart => True

def Installed.lastIssued (n : Installed) : Str := n.issued.getLast?.getD []

/-! ### A read on disk is a read of the model -/

theorem read_stateFile (py : Numbers) (s : EcobeeHeatSource) (i : EcobeeInput) :
    (s.read py i).1.stateFile =
      match rotated py s i, i.persist with
      | some token, .ok () => payload token s.thermostatId
      | _, _ => s.stateFile := by
  rw [(read_tokens py s i).2]
  cases hanswer : tokenAnswer s i with
  | none =>
    obtain ⟨r, hr⟩ := ensureAccessToken_of_none py hanswer
    rw [hr, rotated, hanswer]
    rfl
  | some kvs =>
    rw [ensureAccessToken_of_some hanswer, rotated, hanswer, Option.bind_some]
    delta takeTokens
    dsimp only
    cases lookup ("access_token" : Str) kvs with
    | none => rfl
    | some accessToken =>
      dsimp only
      cases expiresAt py i.now kvs with
      | error e => rfl
      | ok t =>
        dsimp only
        have hsame : isRotated { s with accessToken := accessToken, accessExpiresAt := t } kvs =
            isRotated s kvs := rfl
        rw [hsame]
        cases isRotated s kvs with
        | false => rfl
        | true =>
          simp only [if_true]
          cases i.persist <;> rfl

theorem sound_payload {fl : FloatText} {newToken : Json} (h : isToken newToken ≠ none)
    (thermostatId : Str) : JsonText.Sound fl (payload newToken thermostatId) := by
  obtain ⟨token, htoken⟩ := Option.ne_none_iff_exists'.mp h
  rw [(isToken_eq_some htoken).1]
  exact ⟨by simp, trivial, trivial, trivial⟩

theorem load_payload {newToken : Json} {token : Str} (h : isToken newToken = some token)
    (thermostatId : Str) : loadRefreshToken (payload newToken thermostatId) = some token := h

theorem read_persistOn {fl : FloatText} {path : PurePath} {v : Json} {done : ℕ}
    {d : Disk PurePath UInt8} (hsound : JsonText.Sound fl v) :
    JsonFile.read fl path (persistOn fl path v done d).1 =
      match (persistOn fl path v done d).2 with
      | .ok () => some (.value v)
      | .error _ => JsonFile.read fl path d := by
  rw [persistOn]
  cases htmp : tempPath path with
  | none => rfl
  | some tmp =>
    have hblank : JsonText.Blank [] := rfl
    dsimp only
    rw [JsonFile.read_take_replaceSteps hsound hblank (tempPath_ne htmp)]
    by_cases hdone : (JsonFile.replaceSteps fl JsonText.spaced [] path tmp v).length ≤ done
    · rw [if_pos hdone, if_neg (Nat.not_lt.mpr hdone)]
    · rw [if_neg hdone, if_pos (Nat.lt_of_not_le hdone)]

/-! ### Any life -/

section

variable {fl : FloatText} {py : Numbers} {path : PurePath} {n m : Installed} {i : EcobeeInput}
  {done : ℕ}

/-- The file parses to what the model says of it, and the token in it was issued. -/
structure Sane (fl : FloatText) (path : PurePath) (n : Installed) : Prop where
  file : JsonFile.read fl path n.disk = some (.value n.source.stateFile)
  token : ∃ token ∈ n.issued, loadRefreshToken n.source.stateFile = some token

theorem rotated_eq_some {s : EcobeeHeatSource} {token : Json} (h : rotated py s i = some token) :
    issuedToken s i = isToken token := by
  obtain ⟨kvs, hanswer, hrest⟩ := Option.bind_eq_some_iff.mp h
  split at hrest
  · split_ifs at hrest
    cases hrest
    rw [issuedToken, hanswer, Option.bind_some]
  · cases hrest

theorem Sane.load (h : Sane fl path n) :
    ∃ token ∈ n.issued, loadToken fl path n.disk = some (n.source.stateFile, token) := by
  obtain ⟨token, hissued, htoken⟩ := h.token
  refine ⟨token, hissued, ?_⟩
  rw [loadToken, h.file]
  dsimp only
  rw [htoken, Option.map_some]

theorem Sane.read (h : Sane fl path n) (htexts : Texts py n (.read i done)) :
    Sane fl path (n.read fl py path i done) := by
  have hstate := read_stateFile py n.source (n.input fl py path i done)
  have hrotated : rotated py n.source (n.input fl py path i done) = rotated py n.source i := rfl
  rw [hrotated] at hstate
  obtain ⟨old, hold, hload⟩ := h.token
  have hmem : old ∈ (n.read fl py path i done).issued := List.mem_append_left _ hold
  cases hr : rotated py n.source i with
  | none =>
    rw [hr] at hstate
    have hdisk : (n.read fl py path i done).disk = n.disk := by
      rw [Installed.read, Installed.persist, hr]
    exact ⟨by rw [hdisk, h.file]; exact congrArg _ (congrArg _ hstate.symm),
      old, hmem, hstate ▸ hload⟩
  | some newToken =>
    have htext := htexts newToken hr
    have hpersist : n.persist fl py path i done =
        persistOn fl path (payload newToken n.source.thermostatId) done n.disk := by
      rw [Installed.persist, hr]
    have hfile := @read_persistOn fl path _ done n.disk (sound_payload htext n.source.thermostatId)
    have hinput : (n.input fl py path i done).persist =
        (persistOn fl path (payload newToken n.source.thermostatId) done n.disk).2 := by
      rw [Installed.input, hpersist]
    have hdisk : (n.read fl py path i done).disk =
        (persistOn fl path (payload newToken n.source.thermostatId) done n.disk).1 := by
      rw [Installed.read, hpersist]
    rw [hr, hinput] at hstate
    cases hend : (persistOn fl path (payload newToken n.source.thermostatId) done n.disk).2 with
    | error e =>
      rw [hend] at hstate hfile
      exact ⟨by rw [hdisk, hfile, h.file]; exact congrArg _ (congrArg _ hstate.symm),
        old, hmem, hstate ▸ hload⟩
    | ok u =>
      rw [hend] at hstate hfile
      obtain ⟨token, htoken⟩ := Option.ne_none_iff_exists'.mp htext
      have hissued : token ∈ (n.read fl py path i done).issued := by
        refine List.mem_append_right _ ?_
        rw [rotated_eq_some hr, htoken]
        exact List.mem_singleton_self token
      exact ⟨by rw [hdisk, hfile]; exact congrArg _ (congrArg _ hstate.symm),
        token, hissued, hstate ▸ load_payload htoken n.source.thermostatId⟩

theorem Sane.restart (h : Sane fl path n) : ∃ m, n.restart fl path = some m ∧ Sane fl path m := by
  obtain ⟨token, hissued, hload⟩ := h.load
  refine ⟨⟨{ n.source.fresh token with stateFile := n.source.stateFile }, n.disk, n.issued⟩, ?_,
    h.file, h.token⟩
  rw [Installed.restart, boot, hload, Option.map_some]

theorem Sane.step {event : Event} (h : Sane fl path n) (htexts : Texts py n event) :
    ∃ m, step fl py path n event = some m ∧ Sane fl path m := by
  cases event with
  | read i done => exact ⟨_, rfl, h.read htexts⟩
  | killed i done =>
    have hread : Sane fl path (n.read fl py path i done) := h.read htexts
    exact hread.restart
  | restart => exact h.restart

/-- No start is refused. -/
theorem Sane.exec {events : List Event} (h : Sane fl path n)
    (htexts : Run.Along (EcobeeSetup.step fl py path) (Texts py) n events) :
    ∃ m, Run.exec (EcobeeSetup.step fl py path) n events = some m ∧ Sane fl path m := by
  induction events generalizing n with
  | nil => exact ⟨n, rfl, h⟩
  | cons event events ih =>
    obtain ⟨t, ht, hsane⟩ := h.step htexts.1
    obtain ⟨m, hm, hend⟩ := ih hsane (htexts.2 t ht)
    exact ⟨m, by rw [Run.exec, ht]; exact hm, hend⟩

/-! ### A life in which every write goes through -/

/-- The rotation that the file and the memory stand for. -/
def Installed.rotation (n : Installed) : Rotation := ⟨n.source, n.lastIssued⟩

theorem lastIssued_read :
    (n.read fl py path i done).lastIssued = (issuedToken n.source i).getD n.lastIssued := by
  rw [Installed.lastIssued, Installed.read, Installed.lastIssued]
  cases issuedToken n.source i with
  | none => simp
  | some token => simp

theorem Agreed.afterRead (h : Agreed n.rotation) (hkept : Kept fl py path n (.read i done)) :
    Agreed (n.read fl py path i done).rotation := by
  have hread := agreed_read (i := n.input fl py path i done) h hkept
  rw [Installed.rotation, lastIssued_read]
  exact hread

theorem Agreed.afterRestart (h : Agreed n.rotation) (hsane : Sane fl path n)
    (hm : n.restart fl path = some m) : Agreed m.rotation := by
  obtain ⟨token, -, hload⟩ := hsane.load
  have htoken : loadRefreshToken n.source.stateFile = some token := by
    rw [loadToken, hsane.file] at hload
    obtain ⟨t, ht, heq⟩ := Option.map_eq_some_iff.mp hload
    cases heq
    exact ht
  have hlast : token = n.lastIssued := Option.some.inj (htoken.symm.trans h.file)
  rw [Installed.restart, boot, hload, Option.map_some] at hm
  cases hm
  exact ⟨h.file, congrArg Json.str hlast⟩

theorem Agreed.afterStep {event : Event} (h : Sane fl path n ∧ Agreed n.rotation)
    (hg : Texts py n event ∧ Kept fl py path n event)
    (hm : EcobeeSetup.step fl py path n event = some m) : Sane fl path m ∧ Agreed m.rotation := by
  obtain ⟨t, ht, hsane⟩ := h.1.step hg.1
  cases hm.symm.trans ht
  refine ⟨hsane, ?_⟩
  cases event with
  | read i done =>
    cases hm
    exact Agreed.afterRead h.2 hg.2
  | killed i done =>
    have hread : Sane fl path (n.read fl py path i done) := h.1.read hg.1
    exact Agreed.afterRestart (Agreed.afterRead h.2 hg.2) hread hm
  | restart => exact Agreed.afterRestart h.2 h.1 hm

end

/-! ### From the setup on -/

theorem sane_of_setup {fl : FloatText} {py : Numbers} {s : Script} {done : ℕ}
    {d d' : Disk PurePath UInt8} {c : Credentials} {token : Str}
    (hset : setup fl py s done d = some (d', .ok c)) (htoken : c.refreshToken = .str token)
    (hid : JsonText.Sound fl c.thermostatId) (source : EcobeeHeatSource) :
    ∃ n, boot fl c.stateFile source d' [token] = some n ∧ Sane fl c.stateFile n ∧
      Agreed n.rotation := by
  have hwritten : Written fl py s c d' := (setup_cases hset).1
  have hsound : JsonText.Sound fl c.json := by
    rw [Credentials.json, htoken]
    exact ⟨by simp, trivial, hid, trivial⟩
  have hfile := hwritten.stored hsound
  have hload : loadRefreshToken c.json = some token := by
    obtain ⟨p, -, body, kvs, -, -, -, -, htruthy⟩ := hwritten.granted
    rw [htoken] at htruthy
    rw [Credentials.json, htoken]
    cases token with
    | nil => exact absurd htruthy (by decide)
    | cons a token => rfl
  refine ⟨⟨{ source.fresh token with stateFile := c.json }, d', [token]⟩, ?_, ?_, ?_⟩
  · rw [boot, loadToken, hfile]
    dsimp only
    rw [hload]
    rfl
  · exact ⟨hfile, token, List.mem_singleton_self token, hload⟩
  · exact ⟨hload, rfl⟩

/-- **The state file that a setup leaves never stops the agent. Whatever is answered, cut off
and killed, every start finds a token that the server issued; where every write of a rotated
token goes through, it is the last one.** -/
theorem start_of_setup {fl : FloatText} {py : Numbers} {s : Script} {done : ℕ}
    {d d' : Disk PurePath UInt8} {c : Credentials} {token : Str}
    (hset : setup fl py s done d = some (d', .ok c)) (htoken : c.refreshToken = .str token)
    (hid : JsonText.Sound fl c.thermostatId) (source : EcobeeHeatSource) :
    ∃ n, boot fl c.stateFile source d' [token] = some n ∧
      ∀ events, Run.Along (step fl py c.stateFile) (Texts py) n events →
        ∃ m, Run.exec (step fl py c.stateFile) n events = some m ∧
          (∃ issued ∈ m.issued, ∃ v, loadToken fl c.stateFile m.disk = some (v, issued)) ∧
          (Run.Along (step fl py c.stateFile) (Kept fl py c.stateFile) n events →
            ∃ v, loadToken fl c.stateFile m.disk = some (v, m.lastIssued)) := by
  obtain ⟨n, hboot, hsane, hagreed⟩ := sane_of_setup hset htoken hid source
  refine ⟨n, hboot, fun events htexts => ?_⟩
  obtain ⟨m, hm, hend⟩ := hsane.exec htexts
  obtain ⟨issued, hissued, hload⟩ := hend.load
  refine ⟨m, hm, ⟨issued, hissued, _, hload⟩, fun hkept => ?_⟩
  have hboth : Sane fl c.stateFile m ∧ Agreed m.rotation :=
    Run.exec_invariant (fun _ _ _ h hg hstep => Agreed.afterStep h hg hstep) ⟨hsane, hagreed⟩
      (htexts.and hkept) hm
  refine ⟨m.source.stateFile, ?_⟩
  have hlast : loadRefreshToken m.source.stateFile = some m.lastIssued := hboth.2.file
  rw [loadToken, hboth.1.file]
  dsimp only
  rw [hlast, Option.map_some]

/-- A rotated token, on an answer that is of no use otherwise. -/
def rotating (token : Char) : EcobeeInput :=
  ⟨1000, .body (.value (.obj [("access_token", .str "a"), ("refresh_token", .str [token])])),
    .ok (), .failed⟩

theorem texts_rotating (py : Numbers) (n : Installed) (token : Char) (done : ℕ) :
    Texts py n (.read (rotating token) done) := by
  intro newToken hr
  obtain ⟨kvs, hanswer, hrest⟩ := Option.bind_eq_some_iff.mp hr
  rw [tokenAnswer] at hanswer
  split at hanswer
  · next heq =>
    cases heq
    cases hanswer
    split at hrest
    · split_ifs at hrest
      cases hrest
      exact Option.some_ne_none [token]
    · cases hrest
  · cases hanswer

/-- A write that is cut off, and one behind which the process is killed. -/
def twoRotations : List Event := [.read (rotating 's') 3, .killed (rotating 't') 1000, .restart]

def settings : EcobeeHeatSource := ⟨"2", .fin 5, 1800, .null, 0, .null, .null, false⟩

theorem start_of_setup_secondPicked : ∃ d' c n m,
    setup noFloats twoOnly secondPicked 100 Disk.empty = some (d', .ok c) ∧
      boot noFloats c.stateFile settings d' [['r']] = some n ∧
      Run.exec (step noFloats twoOnly c.stateFile) n twoRotations = some m ∧
      ∃ issued ∈ m.issued, ∃ v, loadToken noFloats c.stateFile m.disk = some (v, issued) := by
  have hrun : (setup noFloats twoOnly secondPicked 100 Disk.empty).any (fun r =>
      r.2.toOption.any fun c =>
        isToken c.refreshToken = some ['r'] ∧ isToken c.thermostatId = some ['2']) = true := by
    decide +kernel
  obtain ⟨⟨d', r⟩, h, hok⟩ := (Option.any_eq_true _ _).mp hrun
  cases r with
  | error e => cases hok
  | ok c =>
    obtain ⟨htoken, hid⟩ := of_decide_eq_true hok
    have hsound : JsonText.Sound noFloats c.thermostatId := by
      rw [(isToken_eq_some hid).1]
      trivial
    obtain ⟨n, hboot, hlife⟩ := start_of_setup h (isToken_eq_some htoken).1 hsound settings
    have htexts : Run.Along (step noFloats twoOnly c.stateFile) (Texts twoOnly) n twoRotations := by
      refine Run.along_of_forall _ fun event hevent n => ?_
      simp only [twoRotations, List.mem_cons, List.not_mem_nil, or_false] at hevent
      obtain rfl | rfl | rfl := hevent
      · exact texts_rotating twoOnly n 's' 3
      · exact texts_rotating twoOnly n 't' 1000
      · trivial
    obtain ⟨m, hm, hload, -⟩ := hlife twoRotations htexts
    exact ⟨d', c, n, m, h, hboot, hm, hload⟩

end HadcdAgent.EcobeeSetup
