import HadcdAgent.Lib.Run
import HadcdAgent.HeatSource.Ecobee

/-!
# The rotation of the Ecobee refresh token

The server, the memory and the state file of `EcobeeHeatSource` (`agent/heat_source.py`)
over reads and restarts. A restart goes through `_load_refresh_token`; what raises
`BMSConfigError` there starts no source.
-/

namespace HadcdAgent.HeatSource

open Lib Lib.PyStr

/-! ### The source -/

def isToken : Json → Option Str
  | .str (c :: token) => some (c :: token)
  | _ => none

/-- `_load_refresh_token`. -/
def loadRefreshToken (stateFile : Json) : Option Str :=
  match stateFile with
  | .obj kvs => isToken (Json.get kvs "refresh_token")
  | _ => none

/-- The source of a process that starts. -/
def EcobeeHeatSource.fresh (s : EcobeeHeatSource) (token : Str) : EcobeeHeatSource :=
  { s with accessToken := .null, accessExpiresAt := 0, refreshToken := .str token, warned := false }

/-! ### The run -/

/-- `issued` is the last refresh token in an answer of the server. -/
structure Rotation where
  source : EcobeeHeatSource
  issued : Str

inductive RotationEvent where
  | read (i : EcobeeInput)
  | restart

/-- The token answer that a read gets, as an object. -/
def tokenAnswer (s : EcobeeHeatSource) (i : EcobeeInput) : Option (List (Str × Json)) :=
  match asksForToken s i.now, i.token with
  | true, .body (.value (.obj kvs)) => some kvs
  | _, _ => none

def issuedToken (s : EcobeeHeatSource) (i : EcobeeInput) : Option Str :=
  (tokenAnswer s i).bind fun kvs => isToken (Json.get kvs "refresh_token")

def rotationStep (py : Numbers) (r : Rotation) : RotationEvent → Option Rotation
  | .read i => some ⟨(r.source.read py i).1, (issuedToken r.source i).getD r.issued⟩
  | .restart =>
    (loadRefreshToken r.source.stateFile).map fun token => ⟨r.source.fresh token, r.issued⟩

/-- After a read that completes normally the file holds the last token issued; a restart
resumes with it. -/
def TokenKept (py : Numbers) (r : Rotation) (e : RotationEvent) : Prop :=
  ∀ r', rotationStep py r e = some r' → match e with
    | .read i => (∃ reading, (r.source.read py i).2 = .ok reading) →
        loadRefreshToken r'.source.stateFile = some r'.issued
    | .restart => r'.source.refreshToken = .str r'.issued

/-- A token answer with another refresh token has it as a text and is of use, and the
token is written. -/
def Rotates (py : Numbers) (r : Rotation) : RotationEvent → Prop
  | .read i => ∀ kvs, tokenAnswer r.source i = some kvs → isRotated r.source kvs = true →
      isToken (Json.get kvs "refresh_token") ≠ none ∧
        TokensUsable py r.source i.now i.persist kvs
  | .restart => True

/-- Server, memory and file agree. -/
structure Agreed (r : Rotation) : Prop where
  file : loadRefreshToken r.source.stateFile = some r.issued
  memory : r.source.refreshToken = .str r.issued

/-! ### What a read does to the tokens -/

section

variable {py : Numbers} {s s' : EcobeeHeatSource} {i : EcobeeInput} {kvs : List (Str × Json)}

theorem isToken_eq_some {x : Json} {token : Str} (h : isToken x = some token) :
    x = .str token ∧ x.truthy = true := by
  cases x with
  | str t =>
    cases t with
    | nil => cases h
    | cons c t =>
      cases h
      exact ⟨rfl, by simp [Json.truthy]⟩
  | _ => cases h

theorem eq_str_iff {x : Json} {token : Str} : x.eq (.str token) = true ↔ x = .str token := by
  cases x with
  | str t => simp [Json.eq, Json.same]
  | float x => cases x <;> simp [Json.eq, Json.same, Json.number?]
  | _ => simp [Json.eq, Json.same, Json.number?]

/-- The thermostat's part of a read leaves the tokens and the file alone. -/
theorem read_tokens (py : Numbers) (s : EcobeeHeatSource) (i : EcobeeInput) :
    (s.read py i).1.refreshToken = (ensureAccessToken py s i).1.refreshToken ∧
      (s.read py i).1.stateFile = (ensureAccessToken py s i).1.stateFile := by
  have hfailed : ∀ t e, (ecobeeFailed t e).1.refreshToken = t.refreshToken ∧
      (ecobeeFailed t e).1.stateFile = t.stateFile := by
    intro t e
    rw [ecobeeFailed]
    split_ifs <;> exact ⟨rfl, rfl⟩
  have hrest : ∀ t data, (readThermostats py t data).1.refreshToken = t.refreshToken ∧
      (readThermostats py t data).1.stateFile = t.stateFile := by
    intro t data
    rw [readThermostats]
    split
    · exact ⟨rfl, rfl⟩
    · split_ifs <;> exact ⟨rfl, rfl⟩
  obtain ⟨⟨t, r⟩, hens⟩ : ∃ x, ensureAccessToken py s i = x := ⟨_, rfl⟩
  rw [EcobeeHeatSource.read, hens]
  cases r with
  | error e => exact hfailed t e
  | ok u =>
    dsimp only
    cases i.thermostat.result with
    | error e => exact hfailed t e
    | ok data => exact hrest t data

theorem ensureAccessToken_of_none (py : Numbers) (h : tokenAnswer s i = none) :
    ∃ r, ensureAccessToken py s i = (s, r) := by
  obtain ⟨now, token, persist, thermostat⟩ := i
  rw [ensureAccessToken]
  split_ifs with hask
  · cases hresult : token.result with
    | error e => exact ⟨.error e, rfl⟩
    | ok data =>
      have htoken : token = .body (.value data) := by
        cases token with
        | body l =>
          cases l with
          | value x =>
            cases hresult
            rfl
          | _ => cases hresult
        | _ => cases hresult
      cases data with
      | obj kvs =>
        have hask' : asksForToken s now = true := hask
        rw [tokenAnswer, htoken, hask'] at h
        cases h
      | _ => exact ⟨.error .typeError, rfl⟩
  · exact ⟨.ok (), rfl⟩

theorem ensureAccessToken_of_some (h : tokenAnswer s i = some kvs) :
    ensureAccessToken py s i = takeTokens py s i.now (.obj kvs) i.persist := by
  obtain ⟨now, token, persist, thermostat⟩ := i
  rw [tokenAnswer] at h
  split at h
  case h_1 lvs hask htoken =>
    have hask' : asksForToken s now = true := hask
    have htoken' : token = .body (.value (.obj lvs)) := htoken
    cases h
    rw [ensureAccessToken, htoken']
    dsimp only
    rw [if_pos hask']
    rfl
  case h_2 => cases h

theorem takeTokens_of_not_isRotated (py : Numbers) (now : ℚ) (persist : Except PyExc Unit)
    (h : isRotated s kvs = false) :
    (takeTokens py s now (.obj kvs) persist).1.refreshToken = s.refreshToken ∧
      (takeTokens py s now (.obj kvs) persist).1.stateFile = s.stateFile := by
  delta takeTokens
  dsimp only
  generalize lookup ("access_token" : Str) kvs = found
  cases found with
  | none => exact ⟨rfl, rfl⟩
  | some accessToken =>
    dsimp only
    cases expiresAt py now kvs with
    | error e => exact ⟨rfl, rfl⟩
    | ok t =>
      have hrotated : isRotated { s with accessToken := accessToken, accessExpiresAt := t } kvs =
          false := h
      dsimp only
      rw [if_neg (by rw [hrotated]; exact Bool.false_ne_true)]
      exact ⟨rfl, rfl⟩

theorem takeTokens_of_usable {now : ℚ} {persist : Except PyExc Unit} {token : Str}
    (hrotated : isRotated s kvs = true) (hu : TokensUsable py s now persist kvs)
    (htoken : isToken (Json.get kvs "refresh_token") = some token) :
    (takeTokens py s now (.obj kvs) persist).1.refreshToken = .str token ∧
      loadRefreshToken (takeTokens py s now (.obj kvs) persist).1.stateFile = some token := by
  obtain ⟨haccess, ⟨t, ht⟩, hpersist⟩ := hu
  obtain ⟨accessToken, ha⟩ := Option.ne_none_iff_exists'.mp haccess
  have hget := (isToken_eq_some htoken).1
  have htake : takeTokens py s now (.obj kvs) persist = persistRefreshToken
      { s with
        accessToken := accessToken
        accessExpiresAt := t
        refreshToken := Json.get kvs "refresh_token" } (Json.get kvs "refresh_token") persist := by
    simp only [takeTokens, ha, ht]
    exact if_pos hrotated
  rw [htake, hpersist hrotated, hget]
  refine ⟨rfl, ?_⟩
  rw [← htoken, hget]
  rfl

/-- With memory in agreement, an answer that is not rotated issues nothing new. -/
theorem issued_of_not_isRotated {issued token : Str} (hmemory : s.refreshToken = .str issued)
    (h : isRotated s kvs = false) (htoken : isToken (Json.get kvs "refresh_token") = some token) :
    token = issued := by
  obtain ⟨hget, htruthy⟩ := isToken_eq_some htoken
  rw [isRotated, htruthy, Bool.true_and, hmemory, Bool.not_eq_false', eq_str_iff, hget] at h
  exact Json.str.inj h

end

/-! ### One step, then the run -/

theorem agreed_read {py : Numbers} {r : Rotation} {i : EcobeeInput} (h : Agreed r)
    (hg : Rotates py r (.read i)) :
    Agreed ⟨(r.source.read py i).1, (issuedToken r.source i).getD r.issued⟩ := by
  obtain ⟨htoken, hfile⟩ := read_tokens py r.source i
  suffices hens : loadRefreshToken (ensureAccessToken py r.source i).1.stateFile =
      some ((issuedToken r.source i).getD r.issued) ∧
      (ensureAccessToken py r.source i).1.refreshToken =
        .str ((issuedToken r.source i).getD r.issued) by
    constructor
    · dsimp only
      rw [hfile]
      exact hens.1
    · dsimp only
      rw [htoken]
      exact hens.2
  cases hanswer : tokenAnswer r.source i with
  | none =>
    obtain ⟨e, he⟩ := ensureAccessToken_of_none py hanswer
    rw [he, issuedToken, hanswer]
    exact ⟨h.file, h.memory⟩
  | some kvs =>
    rw [ensureAccessToken_of_some hanswer, issuedToken, hanswer, Option.bind_some]
    cases hrotated : isRotated r.source kvs with
    | true =>
      obtain ⟨hne, hu⟩ := hg kvs hanswer hrotated
      obtain ⟨token, hnew⟩ := Option.ne_none_iff_exists'.mp hne
      obtain ⟨hmemory, hload⟩ := takeTokens_of_usable hrotated hu hnew
      rw [hnew, Option.getD_some]
      exact ⟨hload, hmemory⟩
    | false =>
      obtain ⟨hmemory, hload⟩ := takeTokens_of_not_isRotated py i.now i.persist hrotated
      have hissued : (isToken (Json.get kvs "refresh_token")).getD r.issued = r.issued := by
        cases hnew : isToken (Json.get kvs "refresh_token") with
        | none => rfl
        | some token => exact issued_of_not_isRotated h.memory hrotated hnew
      rw [hissued, hmemory, hload]
      exact ⟨h.file, h.memory⟩

theorem agreed_step {py : Numbers} {r r' : Rotation} {e : RotationEvent} (h : Agreed r)
    (hg : Rotates py r e) (hstep : rotationStep py r e = some r') : Agreed r' := by
  cases e with
  | read i =>
    cases hstep
    exact agreed_read h hg
  | restart =>
    rw [rotationStep, h.file] at hstep
    cases hstep
    exact ⟨h.file, rfl⟩

theorem tokenKept_of_agreed {py : Numbers} {r : Rotation} {e : RotationEvent} (h : Agreed r)
    (hg : Rotates py r e) : TokenKept py r e := by
  intro r' hstep
  have h' := agreed_step h hg hstep
  cases e with
  | read i => exact fun _ => h'.file
  | restart => exact h'.memory

/-- From agreement, a run that rotates well keeps the token at every step. -/
theorem tokenKept_of_rotates (py : Numbers) {r : Rotation} {es : List RotationEvent}
    (h : Agreed r) (hg : Run.Along (rotationStep py) (Rotates py) r es) :
    Run.Along (rotationStep py) (TokenKept py) r es :=
  Run.along_of_invariant (fun _ _ _ h hg hstep => agreed_step h hg hstep)
    (fun _ _ h hg => tokenKept_of_agreed h hg) h hg

def noNumbers : Numbers := ⟨fun _ => none, id, id⟩

/-- The source after the setup flow, with the token `old`. -/
def setUp : Rotation :=
  ⟨⟨"1", .fin 5, 1800, .null, 0, .str "old", .obj [("refresh_token", .str "old")], false⟩, "old"⟩

def rotatingAnswer : HttpAnswer :=
  .body (.value (.obj [("access_token", .str "a"), ("refresh_token", .str "new")]))

/-- A read that rotates, with the write of the state file as given, and a later one on the
cached access token. -/
def twoReads (persist : Except PyExc Unit) : List RotationEvent :=
  [.read ⟨1000, rotatingAnswer, persist, .failed⟩, .read ⟨1060, .failed, .ok (), .failed⟩]

theorem tokenKept_of_rotates_setUp :
    Run.Along (rotationStep noNumbers) (TokenKept noNumbers) setUp
      (twoReads (.ok ()) ++ [.restart]) := by
  refine tokenKept_of_rotates noNumbers ⟨rfl, rfl⟩ ⟨?_, fun r hr => ⟨?_, fun r _ => ?_⟩⟩
  · intro kvs hkvs _
    cases hkvs
    exact ⟨by decide, by decide, ⟨4600, by decide +kernel⟩, fun _ => rfl⟩
  · intro kvs hkvs
    rw [tokenAnswer] at hkvs
    split at hkvs
    case h_1 h => cases h
    case h_2 => cases hkvs
  · exact ⟨trivial, fun _ _ => trivial⟩

theorem read_cached (py : Numbers) {s : EcobeeHeatSource} {i : EcobeeInput}
    (hask : asksForToken s i.now = false) (hfailed : i.thermostat = .failed) :
    ∃ reading, (s.read py i).2 = .ok reading := by
  have hens : ensureAccessToken py s i = (s, .ok ()) := by
    rw [ensureAccessToken, hask]
    rfl
  refine ⟨zero, ?_⟩
  rw [EcobeeHeatSource.read, hens, hfailed]
  rfl

/-- The write is refused and the first read raises; the second completes with the file
as it was. -/
theorem not_tokenKept_refused_write :
    ¬ Run.Along (rotationStep noNumbers) (TokenKept noNumbers) setUp
      (twoReads (.error .osError)) := by
  intro h
  have hread := (h.2 _ rfl).1 _ rfl
  exact absurd (hread (read_cached noNumbers (by decide +kernel) rfl)) (by decide +kernel)

end HadcdAgent.HeatSource
