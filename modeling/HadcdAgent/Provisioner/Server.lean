import HadcdAgent.Lib.PostBody
import HadcdAgent.Lib.Run
import HadcdAgent.Provisioner

/-!
# The setup wizard's server

`_make_setup_code`, `_is_configured`, `_Handler.do_POST`, `_serve` and `provision`
(`agent/provisioner.py`). Requests are handled one after the other. What the path of a
request is comes from `urlparse`, which may raise.
-/

namespace HadcdAgent.Provisioner

open Lib Lib.PyStr Lib.FormUrl EnvFile

/-! ### The source -/

def maxBodyBytes : ℕ := 64 * 1024

/-- The last decimal digits of a number, with leading zeros. -/
def zeroPadded : ℕ → ℕ → Str
  | 0, _ => []
  | width + 1, n => zeroPadded width (n / 10) ++ [Nat.digitChar (n % 10)]

/-- `_make_setup_code`; `random` is `secrets.randbelow(1_000_000)`. -/
def makeSetupCode (preset : Option Str) (random : ℕ) : Option Str :=
  let preset := strip (preset.getD [])
  if lower preset = "off".toList then none
  else if preset ≠ [] then some preset
  else some (zeroPadded 6 random)

/-- `secrets.compare_digest` of two `str`; `none` is the `TypeError`. -/
def compareDigest (a b : Str) : Option Bool :=
  if a.all isAscii && b.all isAscii then some (a == b) else none

def requiredFields : List Str := ["HADCD_API", "ENROLLMENT_TOKENS", "NODE_NAME"]

/-- `_is_configured`, by what the file has for a key. -/
def configuredOf (get : Str → Option Str) : Bool :=
  let filledIn := fun k => strip ((get k).getD []) ≠ []
  requiredFields.all (fun k => filledIn k) &&
    (strip ((get "BMS_SOURCE").getD "file") ≠ "homeassistant".toList ||
      (filledIn "HA_TOKEN" && filledIn "HA_ENTITY_ID"))

def isConfigured (envFile : Option Str) : Bool :=
  envFile.elim false fun content => configuredOf (readEnv content).get

/-- `path` is the path that `urlparse` finds, `none` when it raises; `sent` the bytes
behind the headers. -/
structure Request where
  path : Option Str
  contentLength : Option Str
  sent : List UInt8

/-- How `_write_env` ends: an exception may come ahead of the rename or behind it. -/
inductive WriteIo where
  | written
  | failed (renamed : Bool) (message : Str)

/-- Behind the checks of a save: the write, whether `systemctl` can be started, and
whether the client is there to be answered. -/
structure SaveIo where
  write : WriteIo
  popen : Bool
  answered : Bool

inductive Response where
  | text (code : ℕ) (body : Str)
  | errorPage (message : Str)
  | success
  | raised
  deriving DecidableEq

structure Server where
  envFile : Option Str
  envExample : Option Str
  done : Bool

def wrongCode : Str :=
  "Wrong or missing setup code. The 6-digit code is shown on the node's screen (and in " ++
    "'journalctl -u hadcd-provision')."

/-- `path.rstrip("/") or "/"`. -/
def route (path : Str) : Str :=
  let path := path.rdropWhile (· = '/')
  if path = [] then ['/'] else path

/-- The `/save` branch of `do_POST` behind the setup code. -/
def saveForm (io : SaveIo) (data : Form) (s : Server) : Response × Server :=
  match save data s.envFile s.envExample with
  | .error message => (.errorPage message, s)
  | .ok (_, content) =>
    let written := { s with envFile := some content }
    match io.write with
    | .failed renamed message => (.errorPage message, if renamed then written else s)
    | .written =>
      if io.popen && io.answered then (.success, { written with done := true })
      else (.raised, written)

def doPost (code : Option Str) (io : SaveIo) (r : Request) (s : Server) : Response × Server :=
  match readBody maxBodyBytes r.contentLength r.sent with
  | .error .badLength => (.text 400 "bad Content-Length", s)
  | .error .tooLarge => (.text 413 "request body too large", s)
  | .ok raw =>
    match r.path with
    | none => (.raised, s)
    | some path =>
      if route path ≠ "/save".toList then (.text 404 "not found", s)
      else
        let data := readForm raw
        match code with
        | none => saveForm io data s
        | some code =>
          match compareDigest (strip (rawValue data "setup_code")) code with
          | none => (.raised, s)
          | some false => (.errorPage wrongCode, s)
          | some true => saveForm io data s

/-- What `_serve` meets: a request, or nothing until `server.timeout`. -/
inductive Event where
  | post (r : Request) (io : SaveIo)
  | get
  | timeout

/-- One pass of the loop of `_serve`; it ends once `_done` is set. -/
def step (code : Option Str) (s : Server) : Event → Option Server
  | .post r io => if s.done then none else some (doPost code io r s).2
  | .get | .timeout => if s.done then none else some s

/-- `provision`: the passes of the loop until the deadline. -/
def provision (code : Option Str) (s : Server) (events : List Event) : Option Server :=
  if isConfigured s.envFile then (if events = [] then some s else none)
  else Run.exec (step code) s events

/-! ### The code -/

theorem isAscii_digitChar {n : ℕ} (h : n < 10) :
    isAscii (Nat.digitChar n) = true ∧ isSpace (Nat.digitChar n) = false := by
  have hall : ∀ n : Fin 10, isAscii (Nat.digitChar n.val) = true ∧
      isSpace (Nat.digitChar n.val) = false := by decide +kernel
  exact hall ⟨n, h⟩

theorem zeroPadded_plain (width n : ℕ) :
    ∀ c ∈ zeroPadded width n, isAscii c = true ∧ isSpace c = false := by
  induction width generalizing n with
  | zero => exact fun c hc => nomatch hc
  | succ width ih =>
    intro c hc
    rw [zeroPadded, List.mem_append] at hc
    rcases hc with hc | hc
    · exact ih _ c hc
    · rw [List.mem_singleton.mp hc]
      exact isAscii_digitChar (Nat.mod_lt n (by decide))

/-- A code that is shown can be typed in: it is ASCII, with no outer blanks. -/
theorem makeSetupCode_plain {preset : Option Str} {random : ℕ} {c : Str}
    (hpreset : (preset.getD []).all isAscii = true) (h : makeSetupCode preset random = some c) :
    c.all isAscii = true ∧ Stripped c := by
  simp only [makeSetupCode] at h
  split_ifs at h
  · cases h
    refine ⟨List.all_eq_true.mpr fun d hd => ?_, stripped_strip _⟩
    exact List.all_eq_true.mp hpreset d ((strip_sublist _).subset hd)
  · cases h
    have hplain := zeroPadded_plain 6 random
    have hspace : SpaceFree (zeroPadded 6 random) := fun d hd => (hplain d hd).2
    exact ⟨List.all_eq_true.mpr fun d hd => (hplain d hd).1, hspace.stripped⟩

theorem compareDigest_eq_true {a b : Str} (h : compareDigest a b = some true) :
    a = b ∧ b.all isAscii = true := by
  rw [compareDigest] at h
  split_ifs at h with hascii
  rw [Bool.and_eq_true] at hascii
  exact ⟨beq_iff_eq.mp (Option.some.inj h), hascii.2⟩

theorem compareDigest_self {a : Str} (h : a.all isAscii = true) :
    compareDigest a a = some true := by
  rw [compareDigest, h]
  simp

/-! ### What a request can change -/

/-- A save that was let in, with the form it carried and the updates collected from it. -/
structure Save where
  request : Request
  data : Form
  updates : Dict Str Str

/-- The body is within the bound, the path is that of the form, the code is the one shown,
and no value holds a control character. -/
structure Save.LetIn (code : Option Str) (x : Save) : Prop where
  body : ∃ raw, readBody maxBodyBytes x.request.contentLength x.request.sent = .ok raw ∧
    raw.length ≤ maxBodyBytes ∧ x.data = readForm raw
  path : ∃ path, x.request.path = some path ∧ route path = "/save".toList
  code : ∀ c, code = some c → filled x.data "setup_code" = c ∧ c.all isAscii = true
  collected : collectUpdates (g x.data) Dict.empty = .ok x.updates

def Save.apply (envExample : Option Str) (envFile : Option Str) (x : Save) : Option Str :=
  some (writeEnv envFile envExample x.updates)

def WriteIo.reachesRename : WriteIo → Bool
  | .written => true
  | .failed renamed _ => renamed

/-- The request is no save that was let in, or its write has not reached the rename. -/
def SavesNothing (code : Option Str) (r : Request) (io : SaveIo) : Prop :=
  io.write.reachesRename = true → ∀ x : Save, x.request = r → ¬ x.LetIn code

/-- A request leaves the server alone, where it saves nothing; or the file is rewritten, and
only with the success page is the wizard done. -/
inductive Handled (code : Option Str) (r : Request) (io : SaveIo) (s : Server) :
    Response × Server → Prop
  | refused {response : Response} (hnothing : SavesNothing code r io) (h : response ≠ .success) :
      Handled code r io s (response, s)
  | rewritten {response : Response} (x : Save) (hr : x.request = r) (hx : x.LetIn code)
      (hrename : io.write.reachesRename = true) (h : response ≠ .success) :
      Handled code r io s (response, { s with envFile := x.apply s.envExample s.envFile })
  | saved (x : Save) (hr : x.request = r) (hx : x.LetIn code)
      (hrename : io.write.reachesRename = true) :
      Handled code r io s
        (.success, { s with envFile := x.apply s.envExample s.envFile, done := true })

section Handling

variable {code : Option Str} {r : Request} {s : Server} {data : Form}

theorem Save.LetIn.data_eq {x : Save} {raw : List UInt8} (hx : x.LetIn code)
    (hraw : readBody maxBodyBytes x.request.contentLength x.request.sent = .ok raw) :
    x.data = readForm raw := by
  obtain ⟨raw', hbody, -, hdata⟩ := hx.body
  cases hbody.symm.trans hraw
  exact hdata

theorem handled_saveForm (io : SaveIo)
    (h : ∀ updates, collectUpdates (g data) Dict.empty = .ok updates →
      (Save.mk r data updates).LetIn code)
    (hdata : ∀ x : Save, x.request = r → x.LetIn code → x.data = data) :
    Handled code r io s (saveForm io data s) := by
  cases hcollect : collectUpdates (g data) Dict.empty with
  | error message =>
    have herror : save data s.envFile s.envExample = .error message := by
      simp only [save, hcollect, bind, Except.bind]
    have hnothing : SavesNothing code r io := by
      intro _ x hr hx
      have hcollected := hx.collected
      rw [hdata x hr hx, hcollect] at hcollected
      cases hcollected
    rw [saveForm, herror]
    exact .refused hnothing Response.noConfusion
  | ok updates =>
    have hok : save data s.envFile s.envExample =
        .ok (updates, writeEnv s.envFile s.envExample updates) := by
      simp only [save, hcollect, bind, Except.bind, pure, Except.pure]
    have hletIn := h updates hcollect
    rw [saveForm, hok]
    cases hwrite : io.write with
    | failed renamed message =>
      cases renamed with
      | false =>
        have hnothing : SavesNothing code r io := by
          intro hrename
          rw [hwrite] at hrename
          cases hrename
        exact .refused hnothing Response.noConfusion
      | true => exact .rewritten _ rfl hletIn (by rw [hwrite]; rfl) Response.noConfusion
    | written =>
      dsimp only
      split_ifs
      · exact .saved _ rfl hletIn (by rw [hwrite]; rfl)
      · exact .rewritten _ rfl hletIn (by rw [hwrite]; rfl) Response.noConfusion

/-- A save that was let in has the code: the comparison with itself would have told. -/
theorem savesNothing_of_wrong {raw : List UInt8} {c : Str} (io : SaveIo)
    (hraw : readBody maxBodyBytes r.contentLength r.sent = .ok raw)
    (hdigest : compareDigest (strip (rawValue (readForm raw) "setup_code")) c ≠ some true) :
    SavesNothing (some c) r io := by
  rintro - x rfl hx
  obtain ⟨hcode, hascii⟩ := hx.code c rfl
  rw [hx.data_eq hraw] at hcode
  have hsupplied : strip (rawValue (readForm raw) "setup_code") = c := hcode
  rw [hsupplied, compareDigest_self hascii] at hdigest
  exact hdigest rfl

theorem handled_doPost (code : Option Str) (io : SaveIo) (r : Request) (s : Server) :
    Handled code r io s (doPost code io r s) := by
  rw [doPost]
  cases hbody : readBody maxBodyBytes r.contentLength r.sent with
  | error e =>
    have hnothing : SavesNothing code r io := by
      rintro - x rfl hx
      obtain ⟨raw, hraw, -⟩ := hx.body
      cases hbody.symm.trans hraw
    cases e with
    | badLength => exact .refused hnothing Response.noConfusion
    | tooLarge => exact .refused hnothing Response.noConfusion
  | ok raw =>
    cases hpath : r.path with
    | none =>
      have hnothing : SavesNothing code r io := by
        rintro - x rfl hx
        obtain ⟨path, hsome, -⟩ := hx.path
        cases hpath.symm.trans hsome
      exact .refused hnothing Response.noConfusion
    | some path =>
      dsimp only
      split_ifs with hroute
      · have hnothing : SavesNothing code r io := by
          rintro - x rfl hx
          obtain ⟨path', hsome, hsave⟩ := hx.path
          cases hpath.symm.trans hsome
          exact hroute hsave
        exact .refused hnothing Response.noConfusion
      · rw [not_not] at hroute
        have hdata : ∀ x : Save, x.request = r → x.LetIn code → x.data = readForm raw := by
          rintro x rfl hx
          exact hx.data_eq hbody
        have hletIn : (∀ c, code = some c → filled (readForm raw) "setup_code" = c ∧
            c.all isAscii = true) → ∀ updates, collectUpdates (g (readForm raw)) Dict.empty =
              .ok updates → (Save.mk r (readForm raw) updates).LetIn code :=
          fun hcode _ hcollect =>
            ⟨⟨raw, hbody, length_readBody hbody, rfl⟩, ⟨path, hpath, hroute⟩, hcode, hcollect⟩
        cases code with
        | none => exact handled_saveForm io (hletIn fun c hc => (nomatch hc)) hdata
        | some code =>
          have hwrong := @savesNothing_of_wrong r raw code io hbody
          dsimp only
          split
          · next hdigest =>
              exact .refused (hwrong fun h => by cases hdigest.symm.trans h) Response.noConfusion
          · next hdigest =>
              exact .refused (hwrong fun h => by cases hdigest.symm.trans h) Response.noConfusion
          · next hdigest =>
              refine handled_saveForm io (hletIn fun c hc => ?_) hdata
              cases hc
              exact compareDigest_eq_true hdigest

end Handling

/-! ### What a run can change -/

section Run

variable {code : Option Str} {s t u : Server} {events : List Event}

def posts (events : List Event) : List Request :=
  events.filterMap fun e => match e with | .post r _ => some r | .get | .timeout => none

/-- Exactly the posts that were let in and whose write has reached the rename are saves. -/
inductive Saved (code : Option Str) : List Event → List Save → Prop
  | nil : Saved code [] []
  | save {x : Save} {io : SaveIo} {events : List Event} {saves : List Save} (hx : x.LetIn code)
      (hrename : io.write.reachesRename = true) (h : Saved code events saves) :
      Saved code (.post x.request io :: events) (x :: saves)
  | post {r : Request} {io : SaveIo} {events : List Event} {saves : List Save}
      (hnothing : SavesNothing code r io) (h : Saved code events saves) :
      Saved code (.post r io :: events) saves
  | get {events : List Event} {saves : List Save} (h : Saved code events saves) :
      Saved code (.get :: events) saves
  | timeout {events : List Event} {saves : List Save} (h : Saved code events saves) :
      Saved code (.timeout :: events) saves

/-- The saves that a run lets through, and the file that they leave. -/
structure Saves (code : Option Str) (events : List Event) (s u : Server) (saves : List Save) :
    Prop where
  requests : (saves.map Save.request).Sublist (posts events)
  letIn : ∀ x ∈ saves, x.LetIn code
  all : Saved code events saves
  file : u.envFile = saves.foldl (Save.apply s.envExample) s.envFile
  template : u.envExample = s.envExample
  done : u.done = true → s.done = true ∨ saves ≠ []

theorem step_post {r : Request} {io : SaveIo} (h : step code s (.post r io) = some t) :
    s.done = false ∧ Handled code r io s (doPost code io r s) ∧ t = (doPost code io r s).2 := by
  rw [step] at h
  split_ifs at h with hdone
  cases h
  exact ⟨Bool.eq_false_iff.mpr hdone, handled_doPost code io r s, rfl⟩

theorem step_quiet {event : Event} (he : event = .get ∨ event = .timeout)
    (h : step code s event = some t) : t = s := by
  rcases he with rfl | rfl
  all_goals
    rw [step] at h
    split_ifs at h
    cases h
    rfl

theorem exists_saves (h : Run.exec (step code) s events = some u) :
    ∃ saves, Saves code events s u saves := by
  induction events generalizing s with
  | nil =>
    cases h
    exact ⟨[], .slnil, fun x hx => (nomatch hx), .nil, rfl, rfl, Or.inl⟩
  | cons event events ih =>
    obtain ⟨t, ht, hu⟩ := Run.exec_cons_eq_some h
    obtain ⟨saves, hsaves⟩ := ih hu
    cases event with
    | post r io =>
      obtain ⟨-, hhandled, heq⟩ := step_post ht
      generalize doPost code io r s = out at hhandled heq
      subst heq
      cases hhandled with
      | refused hnothing _ =>
        exact ⟨saves, hsaves.requests.cons r, hsaves.letIn, .post hnothing hsaves.all,
          hsaves.file, hsaves.template, hsaves.done⟩
      | rewritten x hr hx hrename _ =>
        subst hr
        refine ⟨x :: saves, hsaves.requests.cons_cons _, ?_, .save hx hrename hsaves.all,
          hsaves.file, hsaves.template, fun _ => Or.inr (List.cons_ne_nil x saves)⟩
        exact List.forall_mem_cons.mpr ⟨hx, hsaves.letIn⟩
      | saved x hr hx hrename =>
        subst hr
        refine ⟨x :: saves, hsaves.requests.cons_cons _, ?_, .save hx hrename hsaves.all,
          hsaves.file, hsaves.template, fun _ => Or.inr (List.cons_ne_nil x saves)⟩
        exact List.forall_mem_cons.mpr ⟨hx, hsaves.letIn⟩
    | get =>
      cases step_quiet (Or.inl rfl) ht
      exact ⟨saves, hsaves.requests, hsaves.letIn, .get hsaves.all, hsaves.file,
        hsaves.template, hsaves.done⟩
    | timeout =>
      cases step_quiet (Or.inr rfl) ht
      exact ⟨saves, hsaves.requests, hsaves.letIn, .timeout hsaves.all, hsaves.file,
        hsaves.template, hsaves.done⟩

theorem events_eq_nil_of_done (hs : s.done = true) (h : Run.exec (step code) s events = some u) :
    events = [] ∧ u = s := by
  cases events with
  | nil =>
    cases h
    exact ⟨rfl, rfl⟩
  | cons event events =>
    obtain ⟨t, ht, -⟩ := Run.exec_cons_eq_some h
    cases event <;> simp [step, hs] at ht

/-- The request that is answered by the success page is the last one served. -/
theorem last_of_done (hs : s.done = false) (h : Run.exec (step code) s events = some u)
    (hu : u.done = true) : ∃ before r io, events = before ++ [.post r io] ∧
      ∃ t, Run.exec (step code) s before = some t ∧ (doPost code io r t).1 = .success := by
  induction events generalizing s with
  | nil =>
    cases h
    rw [hs] at hu
    cases hu
  | cons event events ih =>
    obtain ⟨t, ht, hrest⟩ := Run.exec_cons_eq_some h
    by_cases hdone : t.done = true
    · obtain ⟨rfl, rfl⟩ := events_eq_nil_of_done hdone hrest
      cases event with
      | post r io =>
        obtain ⟨-, hhandled, heq⟩ := step_post ht
        refine ⟨[], r, io, rfl, s, rfl, ?_⟩
        generalize doPost code io r s = out at hhandled heq
        subst heq
        cases hhandled with
        | refused _ _ =>
          rw [hs] at hdone
          cases hdone
        | rewritten x _ _ _ _ =>
          have hs' : s.done = true := hdone
          rw [hs] at hs'
          cases hs'
        | saved x _ _ _ => rfl
      | get =>
        cases step_quiet (Or.inl rfl) ht
        rw [hs] at hdone
        cases hdone
      | timeout =>
        cases step_quiet (Or.inr rfl) ht
        rw [hs] at hdone
        cases hdone
    · obtain ⟨before, r, io, rfl, v, hv, hsuccess⟩ := ih (Bool.eq_false_iff.mpr hdone) hrest
      refine ⟨event :: before, r, io, rfl, v, ?_, hsuccess⟩
      rw [Run.exec, ht]
      exact hv

end Run

/-- In every run of the wizard the file is what the saves that were let in make of it, in
their order; it is done with the last request only, which was one of them, and a node that
is configured serves nothing at all. -/
theorem saves_of_provision {code : Option Str} {s u : Server} {events : List Event}
    (h : provision code s events = some u) (hs : s.done = false) :
    ∃ saves, Saves code events s u saves ∧
      (u.done = true → saves ≠ [] ∧ ∃ before r io, events = before ++ [.post r io] ∧
        ∃ t, Run.exec (step code) s before = some t ∧ (doPost code io r t).1 = .success) ∧
      (isConfigured s.envFile = true → saves = [] ∧ events = [] ∧ u = s) := by
  rw [provision] at h
  split_ifs at h with hconfigured hnil
  · cases h
    subst hnil
    refine ⟨[], ⟨.slnil, fun x hx => (nomatch hx), .nil, rfl, rfl, Or.inl⟩, ?_,
      fun _ => ⟨rfl, rfl, rfl⟩⟩
    rw [hs]
    exact fun h => (nomatch h)
  · obtain ⟨saves, hsaves⟩ := exists_saves h
    refine ⟨saves, hsaves, fun hu => ⟨?_, last_of_done hs h hu⟩, fun hc => absurd hc hconfigured⟩
    rcases hsaves.done hu with hdone | hne
    · rw [hs] at hdone
      cases hdone
    · exact hne

def hallPost : Request :=
  ⟨some "/save/", some "32", encodeUtf8 "setup_code=123456&node_name=Hall"⟩

/-- A save with the code, behind a request for the page. -/
theorem saves_of_provision_hall : ∃ saves,
    Saves (some "123456") [.get, .post hallPost ⟨.written, true, true⟩] ⟨none, none, false⟩
      (doPost (some "123456") ⟨.written, true, true⟩ hallPost ⟨none, none, false⟩).2 saves :=
  (saves_of_provision (by rfl) rfl).imp fun _ h => h.1

end HadcdAgent.Provisioner
