import HadcdAgent.Provisioner.Server

/-!
# From the form to the file

A form that is filled in, encoded, sent, taken in by `do_POST` (`agent/provisioner.py`) and
written, and what `_read_env` and `_is_configured` make of the file afterwards.
-/

namespace HadcdAgent.Provisioner

open Lib Lib.PyStr Lib.FormUrl EnvFile

/-! ### The form -/

/-- What is typed into a field, without outer blanks. -/
def typed (kvs : List (Str × Str)) (field : Str) : Str := strip ((valuesOf field kvs).headD [])

/-- The request that submits the form. -/
def submit (safe : SafeSet) (kvs : List (Str × Str)) : Request :=
  let body := encodeUtf8 (urlencode safe kvs)
  ⟨some "/save", some (Nat.toDigits 10 body.length), body⟩

def submitted (safe : SafeSet) (kvs : List (Str × Str)) : Form := parseQs (urlencode safe kvs)

theorem filled_submitted (safe : SafeSet) (kvs : List (Str × Str)) (field : Str) :
    filled (submitted safe kvs) field = typed kvs field := by
  rw [filled, typed, rawValue, submitted, get_parseQs_urlencode]
  split_ifs with h
  · rw [h]
    rfl
  · rfl

def fields : List Str := copiedFields ++ locationFields

section Collect

variable {data : Form} {u : Dict Str Str}

theorem g_of_clean {field : Str} (h : hasControl (filled data field) = false) :
    g data field = .ok (filled data field) := by
  have hraw : hasControl (strip (rawValue data field)) = false := h
  rw [g, cleanEnvValue]
  simp only [hraw, Bool.false_eq_true, if_false]
  rfl

theorem exists_whenFilled {field : Str} (h : hasControl (filled data field) = false)
    (body : Str → Dict Str Str → Dict Str Str) (u : Dict Str Str) :
    ∃ u', whenFilled (g data) field body u = .ok u' := by
  rw [whenFilled, g_of_clean h, ok_bind]
  split_ifs
  · exact ⟨u, rfl⟩
  · exact ⟨_, rfl⟩

theorem exists_collectLocation (h : ∀ f ∈ locationFields, hasControl (filled data f) = false)
    (u : Dict Str Str) : ∃ u', collectLocation (g data) u = .ok u' := by
  rw [collectLocation, g_of_clean (h "node_latitude" (by decide)), ok_bind]
  split_ifs
  · exact ⟨u, rfl⟩
  · exact exists_whenFilled (h "node_longitude" (by decide)) _ u

/-- A form without control characters is collected. -/
theorem exists_collectUpdates (h : ∀ f ∈ fields, hasControl (filled data f) = false) :
    ∃ updates, collectUpdates (g data) Dict.empty = .ok updates := by
  have hcopy : ∀ {field key : Str}, field ∈ fields → ∀ u : Dict Str Str,
      ∃ u', copyField (g data) field key u = .ok u' :=
    fun hf u => exists_whenFilled (h _ hf) _ u
  have hlocation : ∀ f ∈ locationFields, hasControl (filled data f) = false :=
    fun f hf => h f (List.mem_append_right _ hf)
  obtain ⟨u1, h1⟩ := @hcopy "hadcd_api" "HADCD_API" (by decide) Dict.empty
  obtain ⟨u2, h2⟩ := @hcopy "enrollment_tokens" "ENROLLMENT_TOKENS" (by decide) u1
  obtain ⟨u3, h3⟩ := @hcopy "node_name" "NODE_NAME" (by decide) u2
  obtain ⟨u4, h4⟩ := @hcopy "max_power_kw" "MAX_POWER_KW" (by decide) u3
  obtain ⟨u5, h5⟩ := @hcopy "node_type" "NODE_TYPE" (by decide) u4
  obtain ⟨u6, h6⟩ := exists_whenFilled (h "ha_token" (by decide)) (fun token updates =>
    (updates.set "BMS_SOURCE" "homeassistant").set "HA_TOKEN" token) u5
  obtain ⟨u7, h7⟩ := @hcopy "ha_entity_id" "HA_ENTITY_ID" (by decide) u6
  obtain ⟨u8, h8⟩ := @hcopy "ha_demand_kw" "HA_DEMAND_WHEN_HEATING_KW" (by decide) u7
  obtain ⟨u9, h9⟩ := @hcopy "zone_name" "ZONE_NAME" (by decide) u8
  obtain ⟨u10, h10⟩ := exists_collectLocation hlocation u9
  obtain ⟨u11, h11⟩ := exists_whenFilled (h "nicehash_wallet" (by decide)) (fun wallet updates =>
    (updates.set "NICEHASH_WALLET" wallet).setdefault "NICEHASH_TREX_PATH" "/opt/trex/t-rex") u10
  obtain ⟨u12, h12⟩ := exists_whenFilled (h "xmr_wallet" (by decide)) (fun wallet updates =>
    (updates.set "XMR_WALLET_ADDRESS" wallet).setdefault "XMRIG_PATH" "/opt/xmrig/xmrig") u11
  obtain ⟨u13, h13⟩ := @hcopy "vastai_api_key" "VASTAI_API_KEY" (by decide) u12
  refine ⟨u13, ?_⟩
  rw [collectUpdates, h1, ok_bind, h2, ok_bind, h3, ok_bind, h4, ok_bind, h5, ok_bind, h6, ok_bind,
    h7, ok_bind, h8, ok_bind, h9, ok_bind, h10, ok_bind, h11, ok_bind, h12, ok_bind, h13]

end Collect

/-! ### The file -/

/-- The file that the updates are merged into. -/
def base (envFile envExample : Option Str) : Str := (envFile.or envExample).getD []

theorem writeEnv_base (envFile envExample : Option Str) (updates : Dict Str Str) :
    writeEnv envFile envExample updates = writeEnv (some (base envFile envExample)) none updates := by
  cases envFile with
  | some content => rfl
  | none => cases envExample <;> rfl

/-- What is read for a key afterwards: the value that the form assigns, or the old one. -/
def readAfter (data : Form) (prior : Str) (k : Str) : Option Str :=
  (lastValue k (keptPairs data)).or ((readEnv prior).get k)

theorem get_readEnv_save {data : Form} {updates : Dict Str Str}
    (h : collectUpdates (g data) Dict.empty = .ok updates) (hn : NoUnicodeBreak data)
    (envFile envExample : Option Str) (k : Str) :
    (readEnv (writeEnv envFile envExample updates)).get k =
      readAfter data (base envFile envExample) k := by
  obtain ⟨hone, hstripped⟩ := oneLine_of_noUnicodeBreak h hn
  have hback := readsBack_of_oneLine hone hstripped (base envFile envExample) none
    (fun r hr => absurd hr List.not_mem_nil)
  rw [List.foldl_nil] at hback
  rw [writeEnv_base, readAfter, ← (holds_collectUpdates h).get]
  cases hk : updates.get k with
  | some v => rw [hback.1 k v hk, Option.some_or]
  | none =>
    rw [hback.2 k (Dict.get_eq_none_iff.mp hk) fun r hr => absurd hr List.not_mem_nil,
      Option.none_or]

/-! ### The keys that a node needs -/

section Keys

variable {data : Form}

theorem lastValue_copy (data : Form) (field key k : Str) :
    lastValue k (pair data field fun v => [(key, v)]) =
      if key = k ∧ filled data field ≠ [] then some (filled data field) else none := by
  rw [pair]
  by_cases hv : filled data field = [] <;> by_cases hk : key = k <;> simp [lastValue, hv, hk]

theorem lastValue_haToken (data : Form) (k : Str) :
    lastValue k (pair data "ha_token" haTokenPairs) =
      if filled data "ha_token" = [] then none
      else if "HA_TOKEN" = k then some (filled data "ha_token")
      else if "BMS_SOURCE" = k then some "homeassistant" else none := by
  rw [pair]
  by_cases hv : filled data "ha_token" = []
  · simp only [hv, if_true, lastValue]
  · simp only [hv, if_false, haTokenPairs, lastValue]
    split_ifs <;> rfl

/-- The field of the form behind a key that `_is_configured` looks at. -/
def neededFields : List (Str × Str) :=
  [("HADCD_API", "hadcd_api"), ("ENROLLMENT_TOKENS", "enrollment_tokens"),
    ("NODE_NAME", "node_name"), ("HA_TOKEN", "ha_token"), ("HA_ENTITY_ID", "ha_entity_id")]

theorem lastValue_other {k : Str} (hlocation : k ∉ locationKeys) (hnicehash : k ∉ nicehashKeys)
    (hxmr : k ∉ xmrKeys) : lastValue k (locationPairs data) = none ∧
      lastValue k (pair data "nicehash_wallet" nicehashPairs) = none ∧
      lastValue k (pair data "xmr_wallet" xmrPairs) = none :=
  ⟨lastValue_of_not_mem fun hm => hlocation ((locationPairs_keys_sublist data).subset hm),
    lastValue_of_not_mem fun hm => hnicehash ((nicehashPairs_keys_sublist data).subset hm),
    lastValue_of_not_mem fun hm => hxmr ((xmrPairs_keys_sublist data).subset hm)⟩

theorem lastValue_needed {key field : Str} (h : (key, field) ∈ neededFields) :
    lastValue key (keptPairs data) =
      if filled data field = [] then none else some (filled data field) := by
  have hkeys : ∀ kf ∈ neededFields,
      kf.1 ∉ locationKeys ∧ kf.1 ∉ nicehashKeys ∧ kf.1 ∉ xmrKeys := by decide
  obtain ⟨hlocation, hnicehash, hxmr⟩ := hkeys _ h
  obtain ⟨h1, h2, h3⟩ := @lastValue_other data _ hlocation hnicehash hxmr
  clear hkeys hlocation hnicehash hxmr
  simp only [neededFields, List.mem_cons, List.not_mem_nil, or_false] at h
  rcases h with h | h | h | h | h
  all_goals
    obtain ⟨rfl, rfl⟩ := Prod.mk.inj h
    simp +decide only [keptPairs, basicPairs, lastValue_append, lastValue_copy, lastValue_haToken,
      h1, h2, h3, false_and, if_false, Option.none_or, true_and, Option.or_none, if_true, ite_self,
      ite_not]

theorem lastValue_bmsSource (data : Form) : lastValue "BMS_SOURCE".toList (keptPairs data) =
    if filled data "ha_token" = [] then none else some "homeassistant".toList := by
  obtain ⟨h1, h2, h3⟩ := @lastValue_other data "BMS_SOURCE" (by decide) (by decide) (by decide)
  simp +decide only [keptPairs, basicPairs, lastValue_append, lastValue_copy, lastValue_haToken,
    h1, h2, h3, false_and, if_false, Option.none_or, Option.or_none, if_true]

end Keys

/-! ### A node that is set up -/

def nonblank (value : Option Str) : Prop := strip (value.getD []) ≠ []

/-- The form or the file before it has a value. -/
def Given (data : Form) (prior : Str) (key field : Str) : Prop :=
  filled data field ≠ [] ∨ nonblank ((readEnv prior).get key)

/-- The three fields are given, and the thermostat too where the heat demand comes from
Home Assistant, as it does once a token is typed in. -/
structure Complete (data : Form) (prior : Str) : Prop where
  api : Given data prior "HADCD_API" "hadcd_api"
  tokens : Given data prior "ENROLLMENT_TOKENS" "enrollment_tokens"
  name : Given data prior "NODE_NAME" "node_name"
  thermostat : filled data "ha_token" ≠ [] ∨
      strip (((readEnv prior).get "BMS_SOURCE").getD "file") = "homeassistant".toList →
    Given data prior "HA_TOKEN" "ha_token" ∧ Given data prior "HA_ENTITY_ID" "ha_entity_id"

section Configured

variable {data : Form} {prior : Str}

theorem nonblank_readAfter {key field : Str} (h : (key, field) ∈ neededFields) :
    nonblank (readAfter data prior key) ↔ Given data prior key field := by
  rw [readAfter, lastValue_needed h, Given]
  by_cases hv : filled data field = []
  · simp [hv]
  · have hstrip : strip (filled data field) = filled data field := strip_strip _
    simp [hv, nonblank, hstrip]

theorem bmsSource_readAfter :
    strip ((readAfter data prior "BMS_SOURCE").getD "file") = "homeassistant".toList ↔
      filled data "ha_token" ≠ [] ∨
        strip (((readEnv prior).get "BMS_SOURCE").getD "file") = "homeassistant".toList := by
  have hown : strip "homeassistant".toList = "homeassistant".toList := by decide
  rw [readAfter, lastValue_bmsSource]
  by_cases hv : filled data "ha_token" = []
  · simp only [hv, if_true, Option.none_or, ne_eq, not_true_eq_false, false_or]
  · simp only [hv, if_false, Option.some_or, Option.getD_some, hown, ne_eq, not_false_eq_true,
      true_or]

theorem configuredOf_readAfter : configuredOf (readAfter data prior) = true ↔ Complete data prior := by
  have hneeded : ∀ {key field}, (key, field) ∈ neededFields →
      (strip ((readAfter data prior key).getD []) ≠ [] ↔ Given data prior key field) :=
    nonblank_readAfter
  have hapi := @hneeded "HADCD_API" "hadcd_api" (by decide)
  have htokens := @hneeded "ENROLLMENT_TOKENS" "enrollment_tokens" (by decide)
  have hname := @hneeded "NODE_NAME" "node_name" (by decide)
  have hhaToken := @hneeded "HA_TOKEN" "ha_token" (by decide)
  have hhaEntity := @hneeded "HA_ENTITY_ID" "ha_entity_id" (by decide)
  simp only [configuredOf, requiredFields, List.all_cons, List.all_nil, Bool.and_true,
    Bool.and_eq_true, Bool.or_eq_true, decide_eq_true_eq, hapi, htokens, hname, hhaToken, hhaEntity,
    ne_eq, bmsSource_readAfter]
  constructor
  · rintro ⟨⟨hapi, htokens, hname⟩, hbms⟩
    exact ⟨hapi, htokens, hname, fun h => hbms.resolve_left (not_not.mpr h)⟩
  · intro h
    exact ⟨⟨h.api, h.tokens, h.name⟩, or_iff_not_imp_left.mpr fun hn => h.thermostat (not_not.mp hn)⟩

end Configured

/-- At the next boot the wizard exits without serving anything. -/
def StaysSetUp (envFile envExample : Option Str) : Prop :=
  ∀ code events u, provision code ⟨envFile, envExample, false⟩ events = some u → events = []

theorem staysSetUp_iff (envFile envExample : Option Str) :
    StaysSetUp envFile envExample ↔ isConfigured envFile = true := by
  constructor
  · intro h
    by_contra hnot
    have hserved : provision none ⟨envFile, envExample, false⟩ [.timeout] =
        some ⟨envFile, envExample, false⟩ := by
      rw [provision, if_neg hnot]
      rfl
    cases h none _ _ hserved
  · intro h code events u hprovision
    rw [provision, if_pos h] at hprovision
    split_ifs at hprovision with hnil
    exact hnil

/-! ### A form taken in -/

section Submit

variable {safe : SafeSet} {kvs : List (Str × Str)} {code : Option Str} {io : SaveIo} {s : Server}

theorem readBody_submit (h : (encodeUtf8 (urlencode safe kvs)).length ≤ maxBodyBytes) :
    readBody maxBodyBytes (submit safe kvs).contentLength (submit safe kvs).sent =
      .ok (encodeUtf8 (urlencode safe kvs)) := by
  have hread := readBody_of_le (by decide) h []
  rwa [List.append_nil] at hread

theorem route_save : route "/save".toList = "/save".toList := by decide

theorem saveForm_of_written {data : Form} {updates : Dict Str Str}
    (h : collectUpdates (g data) Dict.empty = .ok updates) (hwrite : io.write = .written)
    (hpopen : io.popen = true) (hanswered : io.answered = true) :
    saveForm io data s = (.success, { s with
      envFile := some (writeEnv s.envFile s.envExample updates), done := true }) := by
  have hok : save data s.envFile s.envExample =
      .ok (updates, writeEnv s.envFile s.envExample updates) := by
    simp only [save, h, bind, Except.bind, pure, Except.pure]
  rw [saveForm, hok]
  simp only [hwrite, hpopen, hanswered, Bool.and_self, if_true]

theorem doPost_submit_eq (h : (encodeUtf8 (urlencode safe kvs)).length ≤ maxBodyBytes)
    (hcode : ∀ c, code = some c → typed kvs "setup_code" = c ∧ c.all isAscii = true) :
    doPost code io (submit safe kvs) s = saveForm io (submitted safe kvs) s := by
  have hform : readForm (encodeUtf8 (urlencode safe kvs)) = submitted safe kvs :=
    readForm_urlencode safe kvs
  rw [doPost, readBody_submit h]
  have hpath : (submit safe kvs).path = some "/save".toList := rfl
  simp only [hpath, route_save, ne_eq, not_true_eq_false, if_false, hform]
  cases code with
  | none => rfl
  | some c =>
    obtain ⟨htyped, hascii⟩ := hcode c rfl
    have hsupplied : strip (rawValue (submitted safe kvs) "setup_code") = c :=
      (filled_submitted safe kvs _).trans htyped
    simp only [hsupplied, compareDigest_self hascii]

end Submit

/-- A form with the code that is shown and without control characters is saved, whatever is
typed into it: every key reads as the form has it, or else as before, and the wizard is not
needed again exactly when the form is complete. -/
theorem doPost_submit {safe : SafeSet} {kvs : List (Str × Str)} {preset : Option Str} {random : ℕ}
    {io : SaveIo} {s : Server}
    (hlength : (encodeUtf8 (urlencode safe kvs)).length ≤ maxBodyBytes)
    (hpreset : (preset.getD []).all isAscii = true)
    (hcode : ∀ c, makeSetupCode preset random = some c → typed kvs "setup_code" = c)
    (hclean : ∀ f ∈ fields, hasControl (typed kvs f) = false)
    (hbreak : NoUnicodeBreak (submitted safe kvs)) (hwrite : io.write = .written)
    (hpopen : io.popen = true) (hanswered : io.answered = true) :
    ∃ content, doPost (makeSetupCode preset random) io (submit safe kvs) s =
        (.success, { s with envFile := some content, done := true }) ∧
      (∀ k, (readEnv content).get k =
        readAfter (submitted safe kvs) (base s.envFile s.envExample) k) ∧
      (StaysSetUp (some content) s.envExample ↔
        Complete (submitted safe kvs) (base s.envFile s.envExample)) := by
  have hcontrol : ∀ f ∈ fields, hasControl (filled (submitted safe kvs) f) = false := by
    intro f hf
    rw [filled_submitted]
    exact hclean f hf
  obtain ⟨updates, hcollect⟩ := exists_collectUpdates hcontrol
  have hread := get_readEnv_save hcollect hbreak s.envFile s.envExample
  refine ⟨writeEnv s.envFile s.envExample updates, ?_, hread, ?_⟩
  · rw [doPost_submit_eq hlength fun c hc => ⟨hcode c hc, (makeSetupCode_plain hpreset hc).1⟩]
    exact saveForm_of_written hcollect hwrite hpopen hanswered
  · have hconfigured : isConfigured (some (writeEnv s.envFile s.envExample updates)) =
        configuredOf (readAfter (submitted safe kvs) (base s.envFile s.envExample)) :=
      congrArg configuredOf (funext hread)
    rw [staysSetUp_iff, hconfigured, configuredOf_readAfter]

def hallForm : List (Str × Str) :=
  [("hadcd_api", "http://100.1.2.3:8000"), ("enrollment_tokens", "t&k=1"),
    ("node_name", " Salle à côté"), ("zone_name", ""), ("setup_code", "000042 ")]

theorem doPost_submit_hall : ∃ content,
    doPost (makeSetupCode none 42) ⟨.written, true, true⟩ (submit alwaysSafe hallForm)
        ⟨none, none, false⟩ = (.success, ⟨some content, none, true⟩) ∧
      (∀ k, (readEnv content).get k = readAfter (submitted alwaysSafe hallForm) [] k) ∧
      (StaysSetUp (some content) none ↔ Complete (submitted alwaysSafe hallForm) []) := by
  refine @doPost_submit alwaysSafe hallForm none 42 ⟨.written, true, true⟩ ⟨none, none, false⟩
    (by decide +kernel) (by decide) ?_ (by decide +kernel) ?_ rfl rfl rfl
  · intro c hc
    rw [← Option.some.inj hc]
    decide +kernel
  · have hall : ∀ field ∈ fields,
        ((typed hallForm field).all fun c => isUnicodeBreak c = false) = true := by decide +kernel
    intro field hk c hc
    have hfield : field ∈ fields := by
      rcases hk with ⟨hf, -⟩ | ⟨hf, -⟩
      · exact List.mem_append_left _ hf
      · exact List.mem_append_right _ hf
    rw [filled_submitted] at hc
    exact of_decide_eq_true (List.all_eq_true.mp (hall field hfield) c hc)

end HadcdAgent.Provisioner
