import HadcdAgent.HeatSource.Reading
import HadcdAgent.Lib.JsonFile
import HadcdAgent.Lib.PyPath

/-!
# The Ecobee setup

`main`, `_poll_for_token` and `_write_state_file` of `agent/ecobee_setup.py`, on what is typed,
what the Ecobee server answers and what the clock reads.
-/

namespace HadcdAgent.EcobeeSetup

open Lib Lib.PyStr HeatSource

/-! ### The source -/

/-- How a request ends. -/
inductive Response where
  | raised (e : PyExc)
  | status (code : ℕ) (body : Loads)

def isSuccess (code : ℕ) : Bool := 200 ≤ code && code < 300

/-- `raise_for_status()` and `json()`. -/
def Response.json : Response → Except PyExc Json
  | .raised e => .error e
  | .status code body => if isSuccess code then body.result else .error .httpError

inductive SetupExc where
  | py (e : PyExc)
  | timeout
  | eof

/-- `main` returns 2, or an exception leaves it. -/
inductive Stop where
  | returns2
  | raises (e : SetupExc)

/-- A pass of the polling loop: the time until the clock is read, the answer, and the time
that the request takes, with what the sleep takes beyond its five seconds. -/
structure Poll where
  untilTest : ℚ≥0
  response : Response
  took : ℚ≥0

/-- `err == "authorization_pending"`. -/
def isPending (body : Loads) : Except PyExc Bool :=
  match body.result with
  | .error e => if e.isValueError then .ok false else .error e
  | .ok data => (getOf data "error").map fun err => err.eq (.str "authorization_pending")

/-- What an answer leads to: another pass, behind a sleep where the PIN is pending, or the end
of the loop. -/
inductive Verdict where
  | again (pending : Bool)
  | ended (result : Except SetupExc Json)

def judge : Response → Verdict
  | .raised e => .ended (.error (.py e))
  | .status code body =>
    if code = 200 then .ended (body.result.mapError .py)
    else if code = 400 then
      match isPending body with
      | .error e => .ended (.error (.py e))
      | .ok true => .again true
      | .ok false => .ended (.error (.py .httpError))
    else if isSuccess code then .again false
    else .ended (.error (.py .httpError))

/-- A request of the loop: when it is sent, and whether the PIN is pending. -/
structure Asked where
  time : ℚ
  pending : Bool

/-- The requests, and how the loop ends; `none` while it goes on behind the passes given. -/
def pollForToken (deadline : ℚ) : ℚ → List Poll → Option (List Asked × Except SetupExc Json)
  | _, [] => none
  | now, p :: polls =>
    let test := now + p.untilTest
    if test < deadline then
      match judge p.response with
      | .ended result => some ([⟨test, false⟩], result)
      | .again pending =>
        (pollForToken deadline (test + p.took + if pending then 5 else 0) polls).map fun r =>
          (⟨test, pending⟩ :: r.1, r.2)
    else some ([], .error .timeout)

/-- The lines typed, the default of the state file's path, the answers, and the clock as the
polling begins. -/
structure Script where
  typed : List Str
  stateFileDefault : Str
  pin : Response
  start : ℚ
  polls : List Poll
  thermostats : Response

/-- `except httpx.HTTPError` around a request. -/
def request (r : Response) : Except Stop Json :=
  r.json.mapError fun e => if e = .httpError then .returns2 else .raises (.py e)

def input : List Str → Except Stop (Str × List Str)
  | [] => .error (.raises .eof)
  | line :: typed => .ok (strip line, typed)

/-- The fields of an answer, both of them true. -/
def bothOf (data : Json) (k l : Str) : Except Stop (Json × Json) :=
  match getOf data k, getOf data l with
  | .ok x, .ok y => if x.truthy && y.truthy then .ok (x, y) else .error .returns2
  | .error e, _ | _, .error e => .error (.raises (.py e))

/-- `except (httpx.HTTPError, TimeoutError)`. -/
def handled : SetupExc → Stop
  | .py .httpError | .timeout => .returns2
  | e => .raises e

/-- The items of every thermostat, as the loop that prints them reads them. -/
def itemsOf : List Json → Except PyExc (List (List (Str × Json)))
  | [] => .ok []
  | .obj kvs :: xs => (itemsOf xs).map (kvs :: ·)
  | _ :: _ => .error .attributeError

/-- `enumerate(thermostats)` of a value that is true; the elements of a text and the keys of an
object are texts. -/
def thermostatsOf : Json → Except PyExc (List (List (Str × Json)))
  | .arr xs => itemsOf xs
  | .str _ | .obj _ => .error .attributeError
  | .null | .bool _ | .int _ | .float _ => .error .typeError

/-- `thermostats[i]`. -/
def itemAt {α : Type} (xs : List α) (i : ℤ) : Option α :=
  if 0 ≤ i then xs[i.toNat]? else if -(xs.length : ℤ) ≤ i then xs[(xs.length + i).toNat]? else none

/-- The `while True` around `_prompt`. -/
def pick {α : Type} (py : Numbers) (xs : List α) : List Str → Except Stop α
  | [] => .error (.raises .eof)
  | line :: typed =>
    match (py.intOfStr (strip line)).bind fun i => itemAt xs (i - 1) with
    | some x => .ok x
    | none => pick py xs typed

def choose {α : Type} (py : Numbers) (xs : List α) (typed : List Str) : Except Stop α :=
  match xs with
  | [x] => .ok x
  | xs => pick py xs typed

/-- The thermostat's identifier, from the answer of `_list_thermostats` on. -/
def thermostatId (py : Numbers) (data : Json) (typed : List Str) : Except Stop Json :=
  match getOf data "thermostatList" with
  | .error e => .error (.raises (.py e))
  | .ok thermostats =>
    if thermostats.truthy then
      match thermostatsOf thermostats with
      | .error e => .error (.raises (.py e))
      | .ok xs => do
        let chosen ← choose py xs typed
        let identifier := Json.get chosen "identifier"
        if identifier.truthy then pure identifier else .error .returns2
    else .error .returns2

/-- The arguments of `_write_state_file`. -/
structure Credentials where
  stateFile : PurePath
  refreshToken : Json
  thermostatId : Json

/-- `main` up to `_write_state_file`; `none` while the polling goes on. -/
def main (py : Numbers) (s : Script) : Option (Except Stop Credentials) :=
  let before : Except Stop (PurePath × List Str) := do
    let (apiKey, typed) ← input s.typed
    if apiKey = [] then .error .returns2 else
    let (stateFile, typed) ← input typed
    let pin ← request s.pin
    let _ ← bothOf pin "ecobeePin" "code"
    let (_, typed) ← input typed
    pure (PurePath.ofStr (if stateFile = [] then s.stateFileDefault else stateFile), typed)
  match before with
  | .error e => some (.error e)
  | .ok (stateFile, typed) =>
    (pollForToken (s.start + 600) s.start s.polls).map fun polled => do
      let token ← polled.2.mapError handled
      let (_, refreshToken) ← bothOf token "access_token" "refresh_token"
      let data ← request s.thermostats
      let identifier ← thermostatId py data typed
      pure ⟨stateFile, refreshToken, identifier⟩

/-- `state_file.with_suffix(state_file.suffix + ".tmp")`; a path without a name is a
`ValueError`. -/
def tempPath (p : PurePath) : Option PurePath :=
  p.parts.getLast?.map fun name => ⟨p.root, p.parts.dropLast ++ [name ++ ".tmp".toList]⟩

def Credentials.json (c : Credentials) : Json :=
  .obj [("refresh_token", c.refreshToken), ("thermostat_id", c.thermostatId)]

def Credentials.steps (fl : FloatText) (c : Credentials) (tmp : PurePath) :
    List (FileStep PurePath UInt8) :=
  JsonFile.replaceSteps fl (JsonText.indented 2) [] c.stateFile tmp c.json

/-- `_write_state_file` where the file system carries out `done` of its steps and refuses the
next. What becomes of `chmod` does not matter. -/
def writeStateFile (fl : FloatText) (c : Credentials) (done : ℕ)
    (d : Disk PurePath UInt8) : Disk PurePath UInt8 × Except Stop Credentials :=
  match tempPath c.stateFile with
  | none => (d, .error (.raises (.py .valueError)))
  | some tmp =>
    (FileStep.run d ((c.steps fl tmp).take done),
      if (c.steps fl tmp).length ≤ done then .ok c else .error (.raises (.py .osError)))

/-- A run of the setup; it returns 0 where it ends with `ok`. -/
def setup (fl : FloatText) (py : Numbers) (s : Script) (done : ℕ)
    (d : Disk PurePath UInt8) : Option (Disk PurePath UInt8 × Except Stop Credentials) :=
  (main py s).map fun r =>
    match r with
    | .error e => (d, .error e)
    | .ok c => writeStateFile fl c done d

/-! ### The polling -/

/-- Every pending answer is followed by five seconds. -/
theorem pollForToken_bound {deadline now : ℚ} {polls : List Poll} {asked : List Asked}
    {result : Except SetupExc Json} (h : pollForToken deadline now polls = some (asked, result)) :
    (∀ a ∈ asked, now ≤ a.time ∧ a.time < deadline) ∧
      (asked.countP Asked.pending = 0 ∨
        now + 5 * (asked.countP Asked.pending : ℚ) < deadline + 5) := by
  induction polls generalizing now asked with
  | nil => cases h
  | cons p polls ih =>
    have hafter : now ≤ now + p.untilTest := le_add_of_nonneg_right p.untilTest.2
    rw [pollForToken] at h
    split_ifs at h with htest
    · cases hjudge : judge p.response with
      | ended last =>
        rw [hjudge] at h
        cases h
        refine ⟨fun a ha => ?_, Or.inl rfl⟩
        rw [List.mem_singleton.mp ha]
        exact ⟨hafter, htest⟩
      | again pending =>
        rw [hjudge] at h
        obtain ⟨⟨rest, last⟩, hrest, hcons⟩ := Option.map_eq_some_iff.mp h
        cases hcons
        obtain ⟨htimes, hcount⟩ := ih hrest
        have htook : (0 : ℚ) ≤ p.took := p.took.2
        have hpause : (0 : ℚ) ≤ if pending then 5 else 0 := by split_ifs <;> norm_num
        have hnext : now ≤ now + p.untilTest + p.took + if pending then 5 else 0 := by linarith
        refine ⟨fun a ha => ?_, ?_⟩
        · rcases List.mem_cons.mp ha with rfl | ha
          · exact ⟨hafter, htest⟩
          · exact ⟨hnext.trans (htimes a ha).1, (htimes a ha).2⟩
        · cases pending with
          | false =>
            rw [List.countP_cons_of_neg (by simp)]
            exact hcount.imp_right fun hlt => lt_of_le_of_lt (by linarith) hlt
          | true =>
            rw [List.countP_cons_of_pos rfl]
            push_cast
            simp only [if_true] at hcount
            right
            rcases hcount with hzero | hlt
            · rw [hzero]
              push_cast
              linarith
            · linarith
    · cases h
      exact ⟨nofun, Or.inl rfl⟩

theorem judge_ok {r : Response} {data : Json} (h : judge r = .ended (.ok data)) :
    ∃ body, r = .status 200 body ∧ body.result = .ok data := by
  cases r with
  | raised e => cases h
  | status code body =>
    rw [judge] at h
    split_ifs at h with hcode hbad hsuccess
    · cases hbody : body.result with
      | error e =>
        rw [hbody] at h
        cases h
      | ok x =>
        rw [hbody] at h
        cases h
        exact ⟨body, by rw [hcode], hbody⟩
    · split at h <;> cases h
    · cases h

theorem pollForToken_ok {deadline now : ℚ} {polls : List Poll} {asked : List Asked} {token : Json}
    (h : pollForToken deadline now polls = some (asked, .ok token)) :
    ∃ p ∈ polls, ∃ body, p.response = .status 200 body ∧ body.result = .ok token := by
  induction polls generalizing now asked with
  | nil => cases h
  | cons p polls ih =>
    rw [pollForToken] at h
    split_ifs at h with htest
    · cases hjudge : judge p.response with
      | ended last =>
        rw [hjudge] at h
        cases h
        obtain ⟨body, hbody⟩ := judge_ok hjudge
        exact ⟨p, List.mem_cons_self, body, hbody⟩
      | again pending =>
        rw [hjudge] at h
        obtain ⟨⟨rest, last⟩, hrest, hcons⟩ := Option.map_eq_some_iff.mp h
        cases hcons
        obtain ⟨q, hq, hbody⟩ := ih hrest
        exact ⟨q, List.mem_cons_of_mem p hq, hbody⟩
    · cases h

/-! ### What ends with 0 -/

theorem bothOf_ok {data x y : Json} {k l : Str} (h : bothOf data k l = .ok (x, y)) :
    ∃ kvs, data = .obj kvs ∧ x = Json.get kvs k ∧ y = Json.get kvs l ∧ x.truthy = true ∧
      y.truthy = true := by
  rw [bothOf] at h
  split at h
  · next hx hy =>
    split_ifs at h with htruthy
    cases h
    obtain ⟨kvs, rfl, hk⟩ := getOf_eq_ok hx
    cases hy
    exact ⟨kvs, rfl, hk, rfl, by simpa using htruthy⟩
  · cases h
  · cases h

theorem mem_of_itemAt {α : Type} {xs : List α} {i : ℤ} {x : α} (h : itemAt xs i = some x) :
    x ∈ xs := by
  rw [itemAt] at h
  split_ifs at h
  · exact List.mem_of_getElem? h
  · exact List.mem_of_getElem? h

theorem mem_of_pick {α : Type} {py : Numbers} {xs : List α} {typed : List Str} {x : α}
    (h : pick py xs typed = .ok x) : x ∈ xs := by
  induction typed with
  | nil => cases h
  | cons line typed ih =>
    rw [pick] at h
    split at h
    · next y hy =>
      cases h
      obtain ⟨i, -, hi⟩ := Option.bind_eq_some_iff.mp hy
      exact mem_of_itemAt hi
    · exact ih h

theorem mem_of_choose {α : Type} {py : Numbers} {xs : List α} {typed : List Str} {x : α}
    (h : choose py xs typed = .ok x) : x ∈ xs := by
  rcases xs with _ | ⟨y, _ | ⟨z, xs⟩⟩
  · exact mem_of_pick h
  · cases h
    exact List.mem_singleton_self x
  · exact mem_of_pick h

theorem mem_of_itemsOf {xs : List Json} {items : List (List (Str × Json))}
    (h : itemsOf xs = .ok items) : ∀ kvs ∈ items, .obj kvs ∈ xs := by
  induction xs generalizing items with
  | nil =>
    cases h
    exact nofun
  | cons x xs ih =>
    cases x with
    | obj kvs =>
      rw [itemsOf] at h
      cases hrest : itemsOf xs with
      | error e =>
        rw [hrest] at h
        cases h
      | ok rest =>
        rw [hrest] at h
        cases h
        intro lvs hl
        rcases List.mem_cons.mp hl with rfl | hl
        · exact List.mem_cons_self
        · exact List.mem_cons_of_mem _ (ih hrest lvs hl)
    | _ => cases h

/-- An identifier that is true, of a thermostat in the list that the server sent. -/
def Listed (data identifier : Json) : Prop :=
  ∃ answer xs kvs, data = .obj answer ∧ Json.get answer "thermostatList" = .arr xs ∧
    .obj kvs ∈ xs ∧ Json.get kvs "identifier" = identifier ∧ identifier.truthy = true

theorem thermostatId_ok {py : Numbers} {data identifier : Json} {typed : List Str}
    (h : thermostatId py data typed = .ok identifier) : Listed data identifier := by
  rw [thermostatId] at h
  split at h
  · cases h
  · next thermostats hget =>
    obtain ⟨answer, rfl, hlist⟩ := getOf_eq_ok hget
    split_ifs at h with htruthy
    split at h
    · cases h
    · next items hitems =>
      obtain ⟨chosen, hchosen, hid⟩ := bind_eq_ok h
      dsimp only at hid
      split_ifs at hid with hidentifier
      cases hid
      cases thermostats with
      | arr xs =>
        exact ⟨answer, xs, chosen, rfl, hlist.symm, mem_of_itemsOf hitems chosen (mem_of_choose hchosen),
          rfl, hidentifier⟩
      | _ => cases hitems

/-- The refresh token, true, of an answer 200 that also has an access token. -/
def Granted (polls : List Poll) (refreshToken : Json) : Prop :=
  ∃ p ∈ polls, ∃ body kvs, p.response = .status 200 body ∧ body.result = .ok (.obj kvs) ∧
    (Json.get kvs "access_token").truthy = true ∧ Json.get kvs "refresh_token" = refreshToken ∧
    refreshToken.truthy = true

theorem main_ok {py : Numbers} {s : Script} {c : Credentials} (h : main py s = some (.ok c)) :
    Granted s.polls c.refreshToken ∧
      ∃ data, request s.thermostats = .ok data ∧ Listed data c.thermostatId := by
  rw [main] at h
  split at h
  · cases h
  · next stateFile typed _ =>
    obtain ⟨⟨asked, result⟩, hpoll, hrest⟩ := Option.map_eq_some_iff.mp h
    obtain ⟨token, htoken, hrest⟩ := bind_eq_ok hrest
    obtain ⟨⟨access, refresh⟩, hboth, hrest⟩ := bind_eq_ok hrest
    obtain ⟨data, hdata, hrest⟩ := bind_eq_ok hrest
    obtain ⟨identifier, hid, hrest⟩ := bind_eq_ok hrest
    cases hrest
    have hresult : result = .ok token := by
      cases result with
      | error e => cases htoken
      | ok x =>
        cases htoken
        rfl
    obtain ⟨p, hp, body, hresponse, hbody⟩ := pollForToken_ok (hresult ▸ hpoll)
    obtain ⟨kvs, rfl, haccess, hrefresh, ha, hr⟩ := bothOf_ok hboth
    exact ⟨⟨p, hp, body, kvs, hresponse, hbody, haccess ▸ ha, hrefresh.symm, hr⟩, data, hdata,
      thermostatId_ok hid⟩

/-! ### The state file -/

theorem tempPath_ne {p tmp : PurePath} (h : tempPath p = some tmp) : p ≠ tmp := by
  obtain ⟨name, hname, rfl⟩ := Option.map_eq_some_iff.mp h
  intro heq
  have hlast : p.parts.getLast? = some (name ++ ".tmp".toList) := by
    have hparts : p.parts = p.parts.dropLast ++ [name ++ ".tmp".toList] := congrArg PurePath.parts heq
    rw [hparts, List.getLast?_concat]
  rw [hname] at hlast
  have hlength := congrArg List.length (Option.some.inj hlast)
  rw [List.length_append] at hlength
  exact absurd hlength (by simp)

variable {fl : FloatText} {c : Credentials} {d d' : Disk PurePath UInt8} {done : ℕ}

theorem eq_of_writeStateFile {r : Credentials} (h : writeStateFile fl c done d = (d', .ok r)) :
    r = c := by
  rw [writeStateFile] at h
  split at h
  · cases h
  · obtain ⟨-, hr⟩ := Prod.ext_iff.mp h
    dsimp only at hr
    split_ifs at hr
    cases hr
    rfl

theorem writeStateFile_ok {r : Credentials} (h : writeStateFile fl c done d = (d', .ok r))
    (hsound : JsonText.Sound fl c.json) :
    JsonFile.read fl c.stateFile d' = some (.value c.json) := by
  rw [writeStateFile] at h
  split at h
  · cases h
  · next tmp htmp =>
    obtain ⟨hd, hr⟩ := Prod.ext_iff.mp h
    dsimp only at hd hr
    split_ifs at hr with hdone
    cases hr
    have hblank : JsonText.Blank [] := rfl
    rw [Credentials.steps] at hd hdone
    rw [← hd, JsonFile.read_take_replaceSteps hsound hblank (tempPath_ne htmp),
      if_neg (Nat.not_lt.mpr hdone)]

theorem writeStateFile_error {e : Stop} (h : writeStateFile fl c done d = (d', .error e))
    {q : PurePath} (hq : tempPath c.stateFile ≠ some q) : d'.read q = d.read q := by
  rw [writeStateFile] at h
  split at h
  · cases h
    rfl
  · next tmp htmp =>
    obtain ⟨hd, hr⟩ := Prod.ext_iff.mp h
    dsimp only at hd hr
    split_ifs at hr with hdone
    have hlt : done < (c.steps fl tmp).length := Nat.lt_of_not_le hdone
    rw [Credentials.steps, JsonFile.length_replaceSteps] at hlt
    have hne : q ≠ tmp := fun heq => hq (heq ▸ htmp)
    rw [← hd, Credentials.steps, JsonFile.replaceSteps,
      List.take_append_of_le_length (Nat.le_of_lt_succ hlt)]
    exact FileStep.read_run_of_not_touches fun step hstep =>
      FileStep.not_touches_writeText hne _ step (List.mem_of_mem_take hstep)

/-- What a setup that returns 0 has written. -/
structure Written (fl : FloatText) (py : Numbers) (s : Script) (c : Credentials)
    (d' : Disk PurePath UInt8) : Prop where
  typed : main py s = some (.ok c)
  granted : Granted s.polls c.refreshToken
  listed : ∃ data, request s.thermostats = .ok data ∧ Listed data c.thermostatId
  stored : JsonText.Sound fl c.json → JsonFile.read fl c.stateFile d' = some (.value c.json)

/-- No file but the temporary one is other than it was. -/
def Untouched (py : Numbers) (s : Script) (d d' : Disk PurePath UInt8) : Prop :=
  ∀ q, (∀ c, main py s = some (.ok c) → tempPath c.stateFile ≠ some q) → d'.read q = d.read q

def Outcome (fl : FloatText) (py : Numbers) (s : Script) (d d' : Disk PurePath UInt8) :
    Except Stop Credentials → Prop
  | .ok c => Written fl py s c d'
  | .error _ => Untouched py s d d'

/-- **A setup that returns 0 leaves a state file with a token that was granted and a
thermostat that was listed; any other leaves the files as they were. It asks for a token at most
120 times in vain, and never behind the deadline.** -/
theorem setup_cases {fl : FloatText} {py : Numbers} {s : Script} {done : ℕ}
    {d d' : Disk PurePath UInt8} {r : Except Stop Credentials}
    (h : setup fl py s done d = some (d', r)) :
    Outcome fl py s d d' r ∧
    ∀ asked result, pollForToken (s.start + 600) s.start s.polls = some (asked, result) →
      (∀ a ∈ asked, s.start ≤ a.time ∧ a.time < s.start + 600) ∧
        asked.countP Asked.pending ≤ 120 := by
  refine ⟨?_, fun asked result hpoll => ?_⟩
  · obtain ⟨r', hmain, hr⟩ := Option.map_eq_some_iff.mp h
    cases r' with
    | error e =>
      cases hr
      exact fun _ _ => rfl
    | ok c =>
      dsimp only at hr
      cases r with
      | error e =>
        exact fun q hq => writeStateFile_error hr (hq c hmain)
      | ok c' =>
        have hc : c' = c := eq_of_writeStateFile hr
        subst hc
        obtain ⟨hgranted, hlisted⟩ := main_ok hmain
        exact ⟨hmain, hgranted, hlisted, writeStateFile_ok hr⟩
  · obtain ⟨htimes, hcount⟩ := pollForToken_bound hpoll
    refine ⟨htimes, ?_⟩
    rcases hcount with hzero | hlt
    · rw [hzero]
      exact Nat.zero_le _
    · have hlt' : (asked.countP Asked.pending : ℚ) < 121 := by linarith
      exact Nat.lt_succ_iff.mp (by exact_mod_cast hlt')

def twoOnly : Numbers := ⟨fun t => if t = ['2'] then some 2 else none, id, id⟩

def noFloats : FloatText := ⟨fun _ => [], fun _ => .nan⟩

def answer (kvs : List (Str × Json)) : Response := .status 200 (.value (.obj kvs))

/-- The PIN is pending once, and the second of two thermostats is picked. -/
def secondPicked : Script where
  typed := [" key", [], [], "9", "2"]
  stateFileDefault := "/lib/ecobee_state.json"
  pin := answer [("ecobeePin", .str "ab12"), ("code", .str "c")]
  start := 0
  polls :=
    [⟨0, .status 400 (.value (.obj [("error", .str "authorization_pending")])), 1⟩,
      ⟨1, answer [("access_token", .str "a"), ("refresh_token", .str "r")], 1⟩]
  thermostats := answer [("thermostatList",
    .arr [.obj [("identifier", .str "1")], .obj [("identifier", .str "2")]])]

theorem setup_cases_secondPicked : ∃ d' c,
    setup noFloats twoOnly secondPicked 100 Disk.empty = some (d', .ok c) ∧
      Written noFloats twoOnly secondPicked c d' := by
  have hrun : (setup noFloats twoOnly secondPicked 100 Disk.empty).any (fun r => r.2.isOk) = true := by
    decide +kernel
  obtain ⟨⟨d', r⟩, h, hok⟩ := (Option.any_eq_true _ _).mp hrun
  cases r with
  | error e => cases hok
  | ok c => exact ⟨d', c, h, (setup_cases h).1⟩

end HadcdAgent.EcobeeSetup
