import HadcdAgent.EnvFile
import HadcdAgent.Lib.Exc

/-!
# The setup wizard's save

`_clean_env_value`, `_Handler._collect_updates` and the `/save` branch of
`do_POST` (`agent/provisioner.py`). The form is what `parse_qs` returns: for each
field the list of its values, of which the handler takes the first.
-/

namespace HadcdAgent.Provisioner

open Lib Lib.PyStr EnvFile

/-! ### The handler -/

/-- The result of `urllib.parse.parse_qs`. -/
abbrev Form := Dict Str (List Str)

def hasControl (value : Str) : Bool := value.any fun ch => ch.toNat < 32 || ch.toNat == 127

/-- `_clean_env_value`; the error is the text of the `ValueError`. -/
def cleanEnvValue (value : Str) : Except Str Str :=
  let value := strip value
  if hasControl value then
    .error "a submitted value contains control characters — re-enter it without line breaks"
  else .ok value

def rawValue (data : Form) (k : Str) : Str := ((data.get k).getD [[]]).headD []

def g (data : Form) (k : Str) : Except Str Str := cleanEnvValue (rawValue data k)

/-- `if g(field): …` where the body uses `g(field)`. -/
def whenFilled (g : Str → Except Str Str) (field : Str)
    (body : Str → Dict Str Str → Dict Str Str) (updates : Dict Str Str) :
    Except Str (Dict Str Str) := do
  let value ← g field
  if value = [] then pure updates else pure (body value updates)

def copyField (g : Str → Except Str Str) (field key : Str) (updates : Dict Str Str) :
    Except Str (Dict Str Str) :=
  whenFilled g field (fun value updates => updates.set key value) updates

/-- `if g("node_latitude") and g("node_longitude"): …`; the longitude is looked at
only when the latitude is filled in. -/
def collectLocation (g : Str → Except Str Str) (updates : Dict Str Str) :
    Except Str (Dict Str Str) := do
  let latitude ← g "node_latitude"
  if latitude = [] then pure updates else
    whenFilled g "node_longitude" (fun longitude updates =>
      (updates.set "NODE_LATITUDE" latitude).set "NODE_LONGITUDE" longitude) updates

def collectUpdates (g : Str → Except Str Str) (updates : Dict Str Str) :
    Except Str (Dict Str Str) := do
  let updates ← copyField g "hadcd_api" "HADCD_API" updates
  let updates ← copyField g "enrollment_tokens" "ENROLLMENT_TOKENS" updates
  let updates ← copyField g "node_name" "NODE_NAME" updates
  let updates ← copyField g "max_power_kw" "MAX_POWER_KW" updates
  let updates ← copyField g "node_type" "NODE_TYPE" updates
  let updates ← whenFilled g "ha_token" (fun token updates =>
    (updates.set "BMS_SOURCE" "homeassistant").set "HA_TOKEN" token) updates
  let updates ← copyField g "ha_entity_id" "HA_ENTITY_ID" updates
  let updates ← copyField g "ha_demand_kw" "HA_DEMAND_WHEN_HEATING_KW" updates
  let updates ← copyField g "zone_name" "ZONE_NAME" updates
  let updates ← collectLocation g updates
  let updates ← whenFilled g "nicehash_wallet" (fun wallet updates =>
    (updates.set "NICEHASH_WALLET" wallet).setdefault "NICEHASH_TREX_PATH" "/opt/trex/t-rex")
    updates
  let updates ← whenFilled g "xmr_wallet" (fun wallet updates =>
    (updates.set "XMR_WALLET_ADDRESS" wallet).setdefault "XMRIG_PATH" "/opt/xmrig/xmrig") updates
  copyField g "vastai_api_key" "VASTAI_API_KEY" updates

/-- The `/save` branch after the setup code was accepted: the updates and the new
content of `ENV_FILE`, or the error page's text. -/
def save (data : Form) (envFile envExample : Option Str) : Except Str (Dict Str Str × Str) := do
  let updates ← collectUpdates (g data) Dict.empty
  pure (updates, writeEnv envFile envExample updates)

/-! ### What the handler collects -/

def filled (data : Form) (field : Str) : Str := strip (rawValue data field)

def copiedFields : List Str :=
  ["hadcd_api", "enrollment_tokens", "node_name", "max_power_kw", "node_type", "ha_token",
    "ha_entity_id", "ha_demand_kw", "zone_name", "nicehash_wallet", "xmr_wallet", "vastai_api_key"]

def locationFields : List Str := ["node_latitude", "node_longitude"]

/-- The field's value goes into the file. -/
def Kept (data : Form) (field : Str) : Prop :=
  field ∈ copiedFields ∧ filled data field ≠ [] ∨
    field ∈ locationFields ∧ ∀ f ∈ locationFields, filled data f ≠ []

/-- A line boundary of `str.splitlines` that is no ASCII control character: next
line, line separator, paragraph separator. -/
def isUnicodeBreak (c : Char) : Bool := c.val ∈ [0x85, 0x2028, 0x2029]

def NoUnicodeBreak (data : Form) : Prop :=
  ∀ field, Kept data field → ∀ c ∈ filled data field, isUnicodeBreak c = false

/-- The assignments that a filled-in field makes. -/
def pair (data : Form) (field : Str) (kvs : Str → List (Str × Str)) : List (Str × Str) :=
  if filled data field = [] then [] else kvs (filled data field)

def haTokenPairs (token : Str) : List (Str × Str) :=
  [("BMS_SOURCE", "homeassistant"), ("HA_TOKEN", token)]

def locationPairs (data : Form) : List (Str × Str) :=
  pair data "node_latitude" fun latitude => pair data "node_longitude" fun longitude =>
    [("NODE_LATITUDE", latitude), ("NODE_LONGITUDE", longitude)]

def nicehashPairs (wallet : Str) : List (Str × Str) :=
  [("NICEHASH_WALLET", wallet), ("NICEHASH_TREX_PATH", "/opt/trex/t-rex")]

def xmrPairs (wallet : Str) : List (Str × Str) :=
  [("XMR_WALLET_ADDRESS", wallet), ("XMRIG_PATH", "/opt/xmrig/xmrig")]

def basicPairs (data : Form) : List (Str × Str) :=
  pair data "hadcd_api" (fun v => [("HADCD_API", v)]) ++
  pair data "enrollment_tokens" (fun v => [("ENROLLMENT_TOKENS", v)]) ++
  pair data "node_name" (fun v => [("NODE_NAME", v)]) ++
  pair data "max_power_kw" (fun v => [("MAX_POWER_KW", v)]) ++
  pair data "node_type" (fun v => [("NODE_TYPE", v)]) ++
  pair data "ha_token" haTokenPairs ++
  pair data "ha_entity_id" (fun v => [("HA_ENTITY_ID", v)]) ++
  pair data "ha_demand_kw" (fun v => [("HA_DEMAND_WHEN_HEATING_KW", v)]) ++
  pair data "zone_name" (fun v => [("ZONE_NAME", v)]) ++
  locationPairs data

/-- The assignments that the form makes, in the order of the handler. -/
def keptPairs (data : Form) : List (Str × Str) :=
  basicPairs data ++
  pair data "nicehash_wallet" nicehashPairs ++
  pair data "xmr_wallet" xmrPairs ++
  pair data "vastai_api_key" (fun v => [("VASTAI_API_KEY", v)])

/-- `updates` holds what the assignments leave, and their values were accepted. -/
structure Holds (updates : Dict Str Str) (kvs : List (Str × Str)) : Prop where
  get : ∀ k, updates.get k = lastValue k kvs
  clean : ∀ kv ∈ kvs, hasControl kv.2 = false

theorem holds_empty : Holds Dict.empty [] := ⟨fun _ => rfl, fun _ h => nomatch h⟩

theorem Holds.set {u : Dict Str Str} {kvs : List (Str × Str)} (h : Holds u kvs) (k : Str) {v : Str}
    (hv : hasControl v = false) : Holds (u.set k v) (kvs ++ [(k, v)]) := by
  refine ⟨fun k' => ?_, fun kv hkv => ?_⟩
  · rw [Dict.get_set, lastValue_append, h.get k']
    by_cases he : k = k' <;> simp [lastValue, he]
  · rcases List.mem_append.mp hkv with hm | hm
    · exact h.clean kv hm
    · rw [List.mem_singleton.mp hm]
      exact hv

theorem Holds.setdefault {u : Dict Str Str} {kvs : List (Str × Str)} (h : Holds u kvs) {k v : Str}
    (hk : k ∉ kvs.map Prod.fst) (hv : hasControl v = false) :
    Holds (u.setdefault k v) (kvs ++ [(k, v)]) := by
  have hnot : k ∉ u.keys := by
    rw [← Dict.get_eq_none_iff, h.get k]
    exact lastValue_of_not_mem hk
  rw [Dict.setdefault, if_neg hnot]
  exact h.set k hv

theorem Holds.set_set {u : Dict Str Str} {kvs : List (Str × Str)} (h : Holds u kvs)
    (k k' : Str) {v v' : Str} (hv : hasControl v = false) (hv' : hasControl v' = false) :
    Holds ((u.set k v).set k' v') (kvs ++ [(k, v), (k', v')]) := by
  have hset := (h.set k hv).set k' hv'
  rwa [List.append_assoc] at hset

theorem Holds.set_setdefault {u : Dict Str Str} {kvs : List (Str × Str)} (h : Holds u kvs)
    {k k' : Str} (hk : k' ∉ kvs.map Prod.fst) (hne : k' ≠ k) {v v' : Str}
    (hv : hasControl v = false) (hv' : hasControl v' = false) :
    Holds ((u.set k v).setdefault k' v') (kvs ++ [(k, v), (k', v')]) := by
  have hnot : k' ∉ (kvs ++ [(k, v)]).map Prod.fst := by simpa [hne] using hk
  have hset := (h.set k hv).setdefault hnot hv'
  rwa [List.append_assoc] at hset

theorem g_eq_ok {data : Form} {field v : Str} (h : g data field = .ok v) :
    v = filled data field ∧ hasControl v = false := by
  rw [g, cleanEnvValue] at h
  by_cases hc : hasControl (strip (rawValue data field)) = true
  · simp [hc] at h
  · rw [if_neg hc] at h
    cases h
    exact ⟨rfl, Bool.eq_false_iff.mpr hc⟩

theorem whenFilled_eq_ok {data : Form} {field : Str} {body : Str → Dict Str Str → Dict Str Str}
    {u u' : Dict Str Str} (h : whenFilled (g data) field body u = .ok u') :
    hasControl (filled data field) = false ∧
      u' = if filled data field = [] then u else body (filled data field) u := by
  cases hg : g data field with
  | error e => simp [whenFilled, hg, bind, Except.bind] at h
  | ok v =>
    obtain ⟨rfl, hc⟩ := g_eq_ok hg
    simp only [whenFilled, hg, bind, Except.bind] at h
    refine ⟨hc, ?_⟩
    by_cases hv : filled data field = []
    · simp only [if_pos hv] at h ⊢
      cases h
      rfl
    · simp only [if_neg hv] at h ⊢
      cases h
      rfl

theorem holds_whenFilled {data : Form} {field : Str} {body : Str → Dict Str Str → Dict Str Str}
    {u u' : Dict Str Str} {kvs : List (Str × Str)} {more : Str → List (Str × Str)}
    (hu : Holds u kvs) (h : whenFilled (g data) field body u = .ok u')
    (hbody : ∀ v, hasControl v = false → Holds (body v u) (kvs ++ more v)) :
    Holds u' (kvs ++ pair data field more) := by
  obtain ⟨hc, rfl⟩ := whenFilled_eq_ok h
  by_cases hv : filled data field = []
  · simpa [pair, hv] using hu
  · simpa [pair, hv] using hbody (filled data field) hc

theorem holds_copyField {data : Form} {field key : Str} {u u' : Dict Str Str}
    {kvs : List (Str × Str)} (hu : Holds u kvs) (h : copyField (g data) field key u = .ok u') :
    Holds u' (kvs ++ pair data field fun v => [(key, v)]) :=
  holds_whenFilled hu h fun _ hv => hu.set key hv

def nodeKeys : List Str :=
  ["HADCD_API", "ENROLLMENT_TOKENS", "NODE_NAME", "MAX_POWER_KW", "NODE_TYPE", "BMS_SOURCE",
    "HA_TOKEN", "HA_ENTITY_ID", "HA_DEMAND_WHEN_HEATING_KW", "ZONE_NAME"]

def locationKeys : List Str := ["NODE_LATITUDE", "NODE_LONGITUDE"]

def nicehashKeys : List Str := ["NICEHASH_WALLET", "NICEHASH_TREX_PATH"]

def xmrKeys : List Str := ["XMR_WALLET_ADDRESS", "XMRIG_PATH"]

def vastKeys : List Str := ["VASTAI_API_KEY"]

def basicKeys : List Str := nodeKeys ++ locationKeys

def envKeys : List Str := basicKeys ++ nicehashKeys ++ xmrKeys ++ vastKeys

theorem nodup_envKeys : envKeys.Nodup := by decide

theorem isKey_envKeys : ∀ k ∈ envKeys, IsKey k := by decide

theorem pair_keys_sublist {data : Form} {field : Str} {more : Str → List (Str × Str)}
    {ks : List Str} (h : ∀ v, (more v).map Prod.fst = ks) :
    ((pair data field more).map Prod.fst).Sublist ks := by
  rw [pair]
  split_ifs
  · exact List.nil_sublist ks
  · rw [h]

theorem nicehashPairs_keys_sublist (data : Form) :
    ((pair data "nicehash_wallet" nicehashPairs).map Prod.fst).Sublist nicehashKeys :=
  pair_keys_sublist fun _ => rfl

theorem xmrPairs_keys_sublist (data : Form) :
    ((pair data "xmr_wallet" xmrPairs).map Prod.fst).Sublist xmrKeys :=
  pair_keys_sublist fun _ => rfl

theorem locationPairs_keys_sublist (data : Form) :
    ((locationPairs data).map Prod.fst).Sublist locationKeys := by
  rw [locationPairs, pair]
  split_ifs
  · exact List.nil_sublist locationKeys
  · exact pair_keys_sublist fun _ => rfl

theorem basicPairs_keys_sublist (data : Form) :
    ((basicPairs data).map Prod.fst).Sublist basicKeys := by
  have hone : ∀ (field key : Str),
      ((pair data field fun v => [(key, v)]).map Prod.fst).Sublist [key] := fun _ _ =>
    pair_keys_sublist fun _ => rfl
  have htoken : ((pair data "ha_token" haTokenPairs).map Prod.fst).Sublist
      (["BMS_SOURCE", "HA_TOKEN"] : List Str) := pair_keys_sublist fun _ => rfl
  have hnode := ((((((((hone "hadcd_api" "HADCD_API").append
    (hone "enrollment_tokens" "ENROLLMENT_TOKENS")).append (hone "node_name" "NODE_NAME")).append
    (hone "max_power_kw" "MAX_POWER_KW")).append (hone "node_type" "NODE_TYPE")).append
    htoken).append (hone "ha_entity_id" "HA_ENTITY_ID")).append
    (hone "ha_demand_kw" "HA_DEMAND_WHEN_HEATING_KW")).append (hone "zone_name" "ZONE_NAME")
  simp only [basicPairs, List.map_append]
  exact hnode.append (locationPairs_keys_sublist data)

theorem keptPairs_keys_sublist (data : Form) :
    ((keptPairs data).map Prod.fst).Sublist envKeys := by
  have hvast : ((pair data "vastai_api_key" fun v => [("VASTAI_API_KEY", v)]).map
      Prod.fst).Sublist vastKeys := pair_keys_sublist fun _ => rfl
  simp only [keptPairs, List.map_append]
  exact (((basicPairs_keys_sublist data).append (nicehashPairs_keys_sublist data)).append
    (xmrPairs_keys_sublist data)).append hvast

theorem holds_collectLocation {data : Form} {u u' : Dict Str Str} {kvs : List (Str × Str)}
    (hu : Holds u kvs) (h : collectLocation (g data) u = .ok u') :
    Holds u' (kvs ++ locationPairs data) := by
  obtain ⟨lat, hlat, h⟩ := bind_eq_ok h
  obtain ⟨rfl, hlat'⟩ := g_eq_ok hlat
  rw [locationPairs, pair]
  by_cases hv : filled data "node_latitude" = []
  · rw [if_pos hv] at h ⊢
    cases h
    rwa [List.append_nil]
  · rw [if_neg hv] at h ⊢
    exact holds_whenFilled hu h fun _ hv => hu.set_set _ _ hlat' hv

/-- The updates of an accepted form are the assignments of its filled-in fields. -/
theorem holds_collectUpdates {data : Form} {updates : Dict Str Str}
    (h : collectUpdates (g data) Dict.empty = .ok updates) : Holds updates (keptPairs data) := by
  obtain ⟨u1, h1, h⟩ := bind_eq_ok h
  obtain ⟨u2, h2, h⟩ := bind_eq_ok h
  obtain ⟨u3, h3, h⟩ := bind_eq_ok h
  obtain ⟨u4, h4, h⟩ := bind_eq_ok h
  obtain ⟨u5, h5, h⟩ := bind_eq_ok h
  obtain ⟨u6, h6, h⟩ := bind_eq_ok h
  obtain ⟨u7, h7, h⟩ := bind_eq_ok h
  obtain ⟨u8, h8, h⟩ := bind_eq_ok h
  obtain ⟨u9, h9, h⟩ := bind_eq_ok h
  obtain ⟨u10, h10, h⟩ := bind_eq_ok h
  obtain ⟨u11, h11, h⟩ := bind_eq_ok h
  obtain ⟨u12, h12, h⟩ := bind_eq_ok h
  have k5 := holds_copyField (holds_copyField (holds_copyField (holds_copyField
    (holds_copyField holds_empty h1) h2) h3) h4) h5
  have k6 := holds_whenFilled k5 h6 fun _ hv => k5.set_set _ _ (by decide) hv
  have k9 := holds_copyField (holds_copyField (holds_copyField k6 h7) h8) h9
  have hbasic : Holds u10 (basicPairs data) := holds_collectLocation k9 h10
  have hkeys := basicPairs_keys_sublist data
  have htrex : ("NICEHASH_TREX_PATH" : Str) ∉ (basicPairs data).map Prod.fst := fun hm =>
    absurd (hkeys.subset hm) (by decide)
  have k11 := holds_whenFilled hbasic h11 fun _ hv =>
    hbasic.set_setdefault htrex (by decide) hv (by decide)
  have hxmrig : ("XMRIG_PATH" : Str) ∉
      (basicPairs data ++ pair data "nicehash_wallet" nicehashPairs).map Prod.fst := by
    rw [List.map_append]
    exact fun hm => absurd ((hkeys.append (nicehashPairs_keys_sublist data)).subset hm) (by decide)
  have k12 := holds_whenFilled k11 h12 fun _ hv =>
    k11.set_setdefault hxmrig (by decide) hv (by decide)
  exact holds_copyField k12 h

/-! ### Where the values come from -/

def ownValues : List Str := ["homeassistant", "/opt/trex/t-rex", "/opt/xmrig/xmrig"]

/-- Every value is the handler's own or the value of a kept field. -/
def Sourced (data : Form) (kvs : List (Str × Str)) : Prop :=
  ∀ kv ∈ kvs, kv.2 ∈ ownValues ∨ ∃ field, Kept data field ∧ kv.2 = filled data field

theorem Sourced.append {data : Form} {kvs kvs' : List (Str × Str)} (h : Sourced data kvs)
    (h' : Sourced data kvs') : Sourced data (kvs ++ kvs') := fun kv hkv =>
  (List.mem_append.mp hkv).elim (h kv) (h' kv)

theorem sourced_pair {data : Form} {field : Str} (hf : field ∈ copiedFields)
    {more : Str → List (Str × Str)}
    (hm : ∀ v, ∀ kv ∈ more v, kv.2 ∈ ownValues ∨ kv.2 = v) : Sourced data (pair data field more) := by
  intro kv hkv
  rw [pair] at hkv
  split_ifs at hkv with hv
  · cases hkv
  · exact (hm _ kv hkv).imp_right fun he => ⟨field, Or.inl ⟨hf, hv⟩, he⟩

theorem sourced_copy {data : Form} {field : Str} (hf : field ∈ copiedFields) (key : Str) :
    Sourced data (pair data field fun v => [(key, v)]) :=
  sourced_pair hf fun _ _ hkv => Or.inr (by rw [List.mem_singleton.mp hkv])

theorem sourced_locationPairs (data : Form) : Sourced data (locationPairs data) := by
  intro kv hkv
  rw [locationPairs, pair] at hkv
  split_ifs at hkv with hlat
  · cases hkv
  · rw [pair] at hkv
    split_ifs at hkv with hlong
    · cases hkv
    · have hkept : ∀ f ∈ locationFields, Kept data f := fun f hf => by
        refine Or.inr ⟨hf, fun f' hf' => ?_⟩
        rcases List.mem_pair.mp hf' with rfl | rfl
        · exact hlat
        · exact hlong
      rcases List.mem_pair.mp hkv with rfl | rfl
      · exact Or.inr ⟨_, hkept _ (List.mem_cons_self ..), rfl⟩
      · exact Or.inr ⟨_, hkept _ (List.mem_cons_of_mem _ (List.mem_cons_self ..)), rfl⟩

theorem sourced_keptPairs (data : Form) : Sourced data (keptPairs data) := by
  have htwo : ∀ {key key' own : Str}, own ∈ ownValues → ∀ v, ∀ kv ∈ [(key, v), (key', own)],
      kv.2 ∈ ownValues ∨ kv.2 = v := by
    intro key key' own hown v kv hkv
    rcases List.mem_pair.mp hkv with rfl | rfl
    · exact Or.inr rfl
    · exact Or.inl hown
  have htoken : ∀ v, ∀ kv ∈ haTokenPairs v, kv.2 ∈ ownValues ∨ kv.2 = v := by
    intro v kv hkv
    rcases List.mem_pair.mp hkv with rfl | rfl
    · exact Or.inl (List.mem_cons_self ..)
    · exact Or.inr rfl
  have hbasic : Sourced data (basicPairs data) :=
    (((((((((sourced_copy (by decide) _).append (sourced_copy (by decide) _)).append
      (sourced_copy (by decide) _)).append (sourced_copy (by decide) _)).append
      (sourced_copy (by decide) _)).append (sourced_pair (by decide) htoken)).append
      (sourced_copy (by decide) _)).append (sourced_copy (by decide) _)).append
      (sourced_copy (by decide) _)).append (sourced_locationPairs data)
  exact ((hbasic.append (sourced_pair (by decide) (htwo (by decide)))).append
    (sourced_pair (by decide) (htwo (by decide)))).append (sourced_copy (by decide) _)

/-- Each of the fields that is not blank has its value assigned to some key. -/
def Covers (data : Form) (fields : List Str) (kvs : List (Str × Str)) : Prop :=
  ∀ field ∈ fields, filled data field ≠ [] → ∃ k, (k, filled data field) ∈ kvs

theorem Covers.append {data : Form} {fs fs' : List Str} {kvs kvs' : List (Str × Str)}
    (h : Covers data fs kvs) (h' : Covers data fs' kvs') :
    Covers data (fs ++ fs') (kvs ++ kvs') := by
  intro field hf hv
  rcases List.mem_append.mp hf with hm | hm
  · exact (h field hm hv).imp fun _ hk => List.mem_append_left _ hk
  · exact (h' field hm hv).imp fun _ hk => List.mem_append_right _ hk

theorem Covers.append_right {data : Form} {fs : List Str} {kvs : List (Str × Str)}
    (h : Covers data fs kvs) (kvs' : List (Str × Str)) : Covers data fs (kvs ++ kvs') :=
  fun field hf hv => (h field hf hv).imp fun _ hk => List.mem_append_left _ hk

theorem covers_pair {data : Form} {field : Str} {more : Str → List (Str × Str)}
    (hm : ∀ v, ∃ k, (k, v) ∈ more v) : Covers data [field] (pair data field more) := by
  intro f hf hv
  rw [List.mem_singleton.mp hf] at hv ⊢
  rw [pair, if_neg hv]
  exact hm _

theorem covers_copy (data : Form) (field key : Str) :
    Covers data [field] (pair data field fun v => [(key, v)]) :=
  covers_pair fun _ => ⟨key, List.mem_cons_self ..⟩

theorem covers_keptPairs (data : Form) : Covers data copiedFields (keptPairs data) := by
  have htoken : Covers data ["ha_token"] (pair data "ha_token" haTokenPairs) :=
    covers_pair fun _ => ⟨_, List.mem_cons_of_mem _ (List.mem_cons_self ..)⟩
  have hbasic := ((((((((covers_copy data "hadcd_api" "HADCD_API").append
    (covers_copy data "enrollment_tokens" "ENROLLMENT_TOKENS")).append
    (covers_copy data "node_name" "NODE_NAME")).append
    (covers_copy data "max_power_kw" "MAX_POWER_KW")).append
    (covers_copy data "node_type" "NODE_TYPE")).append htoken).append
    (covers_copy data "ha_entity_id" "HA_ENTITY_ID")).append
    (covers_copy data "ha_demand_kw" "HA_DEMAND_WHEN_HEATING_KW")).append
    (covers_copy data "zone_name" "ZONE_NAME")
  have hnicehash : Covers data ["nicehash_wallet"] (pair data "nicehash_wallet" nicehashPairs) :=
    covers_pair fun _ => ⟨_, List.mem_cons_self ..⟩
  have hxmr : Covers data ["xmr_wallet"] (pair data "xmr_wallet" xmrPairs) :=
    covers_pair fun _ => ⟨_, List.mem_cons_self ..⟩
  exact (((hbasic.append_right (locationPairs data)).append hnicehash).append hxmr).append
    (covers_copy data "vastai_api_key" "VASTAI_API_KEY")

theorem covers_locationPairs {data : Form} (h : ∀ f ∈ locationFields, filled data f ≠ []) :
    Covers data locationFields (locationPairs data) := by
  have hlat := h "node_latitude" (List.mem_cons_self ..)
  have hlong := h "node_longitude" (List.mem_cons_of_mem _ (List.mem_cons_self ..))
  have hpairs : locationPairs data = ([("NODE_LATITUDE", filled data "node_latitude"),
      ("NODE_LONGITUDE", filled data "node_longitude")] : List (Str × Str)) := by
    rw [locationPairs, pair, if_neg hlat, pair, if_neg hlong]
  intro f hf _
  rw [hpairs]
  rcases List.mem_pair.mp hf with rfl | rfl
  · exact ⟨_, List.mem_cons_self ..⟩
  · exact ⟨_, List.mem_cons_of_mem _ (List.mem_cons_self ..)⟩

theorem exists_mem_keptPairs {data : Form} {field : Str} (h : Kept data field) :
    ∃ k, (k, filled data field) ∈ keptPairs data := by
  rcases h with ⟨hf, hv⟩ | ⟨hf, hall⟩
  · exact covers_keptPairs data field hf hv
  · refine (covers_locationPairs hall field hf (hall field hf)).imp fun k hk => ?_
    rw [keptPairs, basicPairs]
    exact List.mem_append_left _ (List.mem_append_left _ (List.mem_append_left _
      (List.mem_append_right _ hk)))

/-! ### Reading the saved file back -/

/-- What the wizard promises of a saved file, also after the later rewrites: every
update is read back, and every other key that no rewrite writes as before. -/
def ReadsBack (prior final : Str) (updates : Dict Str Str) (rewrites : List Rewrite) : Prop :=
  (∀ k v, updates.get k = some v → (readEnv final).get k = some v) ∧
  ∀ k ∉ updates.keys, (∀ r ∈ rewrites, r.Keeps fun k' => k' = k) →
    (readEnv final).get k = (readEnv prior).get k

def OnOtherKeys (updates : Dict Str Str) (r : Rewrite) : Prop := r.Keeps fun k => k ∈ updates.keys

/-- A save is safe: whatever rewrites of other keys follow, the file reads back. -/
def SafeSave (data : Form) (prior : Str) (envExample : Option Str) : Prop :=
  ∀ updates content, save data (some prior) envExample = .ok (updates, content) →
    ∀ rewrites : List Rewrite, (∀ r ∈ rewrites, OnOtherKeys updates r) →
      ReadsBack prior (rewrites.foldl Rewrite.apply content) updates rewrites

theorem breakFree_of_clean {v : Str} (hc : hasControl v = false)
    (hu : ∀ c ∈ v, isUnicodeBreak c = false) : BreakFree v := by
  intro c hm
  have hctl : ¬ (c.toNat < 32 ∨ c.toNat = 127) := by
    have h := List.any_eq_false.mp hc c hm
    simpa using h
  have hun := hu c hm
  by_contra hb
  simp only [Bool.not_eq_false, isLineBreak, List.mem_cons, List.not_mem_nil, or_false,
    decide_eq_true_eq] at hb
  simp only [isUnicodeBreak, List.mem_cons, List.not_mem_nil, or_false, decide_eq_false_iff_not,
    not_or] at hun
  have hnat : c.toNat = c.val.toNat := rfl
  rcases hb with h | h | h | h | h | h | h | h | h | h
  all_goals first
    | exact hun.1 h
    | exact hun.2.1 h
    | exact hun.2.2 h
    | exact hctl (Or.inl (by rw [hnat, h]; decide))

theorem isLineBreak_of_isUnicodeBreak {c : Char} (h : isUnicodeBreak c = true) :
    isLineBreak c = true := by
  simp only [isUnicodeBreak, List.mem_cons, List.not_mem_nil, or_false, decide_eq_true_eq] at h
  simp only [isLineBreak, List.mem_cons, List.not_mem_nil, or_false, decide_eq_true_eq]
  rcases h with h | h | h <;> simp [h]

/-- The updates of an accepted form without these boundaries are one line each,
with values that `strip` leaves alone. -/
theorem oneLine_of_noUnicodeBreak {data : Form} {updates : Dict Str Str}
    (h : collectUpdates (g data) Dict.empty = .ok updates) (hn : NoUnicodeBreak data) :
    OneLine updates ∧ ∀ kv ∈ updates.items, Stripped kv.2 := by
  have hh := holds_collectUpdates h
  have hmem : ∀ kv ∈ updates.items, kv ∈ keptPairs data := fun kv hkv => by
    have hget : updates.get kv.1 = some kv.2 := Dict.get_eq_some_iff.mpr hkv
    rw [hh.get] at hget
    exact mem_of_lastValue_eq_some hget
  have hkey : ∀ kv ∈ keptPairs data, IsKey kv.1 := fun kv hkv =>
    isKey_envKeys kv.1 ((keptPairs_keys_sublist data).subset (List.mem_map_of_mem hkv))
  have hown : ∀ v ∈ ownValues, BreakFree v ∧ Stripped v := by decide
  have hvalue : ∀ kv ∈ keptPairs data, BreakFree kv.2 ∧ Stripped kv.2 := fun kv hkv => by
    rcases sourced_keptPairs data kv hkv with hm | ⟨field, hk, he⟩
    · exact hown kv.2 hm
    · refine ⟨breakFree_of_clean (hh.clean kv hkv) ?_, he ▸ stripped_strip _⟩
      rw [he]
      exact hn field hk
  exact ⟨fun kv hkv => ⟨hkey kv (hmem kv hkv), (hvalue kv (hmem kv hkv)).1⟩,
    fun kv hkv => (hvalue kv (hmem kv hkv)).2⟩

theorem readsBack_of_oneLine {updates : Dict Str Str} (hu : OneLine updates)
    (hs : ∀ kv ∈ updates.items, Stripped kv.2) (prior : Str) (envExample : Option Str)
    {rewrites : List Rewrite} (hr : ∀ r ∈ rewrites, OnOtherKeys updates r) :
    ReadsBack prior (rewrites.foldl Rewrite.apply (writeEnv (some prior) envExample updates))
      updates rewrites := by
  refine ⟨fun k v hkv => ?_, fun k hk hkeep => ?_⟩
  · have hkey : (fun k => decide (k ∈ updates.keys)) k = true :=
      decide_eq_true (Dict.mem_keys_iff.mpr ⟨v, hkv⟩)
    have hstrip : strip v = v := hs (k, v) (Dict.get_eq_some_iff.mp hkv)
    rw [get_readEnv_congr (onKeys_rewrites _ hr) hkey,
      get_readEnv_writeEnv prior envExample hu hkv, hstrip]
  · have hwrite : Avoids (fun k' => decide (k' = k)) (writtenKeys updates.items) := by
      intro k' hk'
      rw [writtenKeys, written_of_breakFree hu, List.map_map] at hk'
      exact decide_eq_false fun he => hk (he ▸ hk')
    have hall := (onKeys_rewrites _ hkeep).trans (onKeys_writeEnv prior envExample hwrite)
    exact get_readEnv_congr hall (decide_eq_true rfl)

/-- A save is safe exactly when no value that goes into the file holds one of the
three line boundaries that are no ASCII control characters. -/
theorem safeSave_iff {data : Form} {updates : Dict Str Str}
    (h : collectUpdates (g data) Dict.empty = .ok updates) (prior : Str)
    (envExample : Option Str) : SafeSave data prior envExample ↔ NoUnicodeBreak data := by
  have hsave : ∀ u c, save data (some prior) envExample = .ok (u, c) ↔
      u = updates ∧ c = writeEnv (some prior) envExample updates := by
    intro u c
    simp only [save, h, bind, Except.bind, pure, Except.pure, Except.ok.injEq, Prod.mk.injEq]
    exact ⟨fun hu => ⟨hu.1.symm, hu.2.symm⟩, fun hu => ⟨hu.1.symm, hu.2.symm⟩⟩
  constructor
  · intro hsafe field hk c hc
    obtain ⟨k, hmem⟩ := exists_mem_keptPairs hk
    have hnodup := (keptPairs_keys_sublist data).nodup nodup_envKeys
    have hget : updates.get k = some (filled data field) := by
      rw [(holds_collectUpdates h).get]
      exact lastValue_of_mem hnodup hmem
    have hback := (hsafe updates _ ((hsave _ _).mpr ⟨rfl, rfl⟩) [] fun _ hr => nomatch hr).1 k _ hget
    have hfree := readEnv_breakFree hback c hc
    by_contra hb
    rw [isLineBreak_of_isUnicodeBreak (Bool.eq_true_of_not_eq_false hb)] at hfree
    exact Bool.noConfusion hfree
  · intro hn u c hu rewrites hr
    obtain ⟨rfl, rfl⟩ := (hsave u c).mp hu
    obtain ⟨hone, hstripped⟩ := oneLine_of_noUnicodeBreak h hn
    exact readsBack_of_oneLine hone hstripped prior envExample hr

def nameForm (name : Str) : Form := Dict.empty.set "node_name" [name]

theorem safeSave_iff_hall :
    SafeSave (nameForm "Hall") "NODE_TYPE=pool\n" none ↔ NoUnicodeBreak (nameForm "Hall") :=
  safeSave_iff (show collectUpdates (g (nameForm "Hall")) Dict.empty =
    .ok (Dict.empty.set "NODE_NAME" "Hall") from rfl) _ none

/-- The wizard accepts a name that holds a line separator, and so sets another key. -/
theorem not_safeSave_lineSeparator :
    ¬ SafeSave (nameForm "x\u2028XMRIG_PATH=/tmp/evil") "NODE_TYPE=pool\n" none := by
  intro h
  have hback := (h (Dict.empty.set "NODE_NAME" "x\u2028XMRIG_PATH=/tmp/evil") _ rfl []
    fun _ hr => nomatch hr).2 "XMRIG_PATH" (by decide) fun _ hr => nomatch hr
  exact absurd hback (by decide)

end HadcdAgent.Provisioner
