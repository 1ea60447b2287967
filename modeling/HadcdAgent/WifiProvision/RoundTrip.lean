import HadcdAgent.WifiProvision.Scan

/-!
# The scan against the networks

When `scan_networks` (`agent/wifi_provision.py`) gives back the networks that `nmcli` has
printed. The lines are split at the colons and stripped, but the fields not unescaped.
-/

namespace HadcdAgent.WifiProvision

open Lib Lib.PyStr

/-- Each network but the hotspot is listed once, by its SSID, with the signal and the
security of its first line; an open network has no security text. -/
structure Decodes (networks : List Visible) (result : List Network) : Prop where
  listed : ∀ ssid, (∃ m ∈ result, m.ssid = ssid) ↔
    ssid ≠ hotspotSsid ∧ ∃ n ∈ networks, n.ssid = ssid
  once : (result.map Network.ssid).Nodup
  first : ∀ m ∈ result, ∀ n, networks.find? (fun n => n.ssid = m.ssid) = some n →
    m.signal = Nat.toDigits 10 n.signal ∧ m.security = orOpen n.security
  sorted : result.Pairwise fun m n => strength n ≤ strength m

/-- Read as it stands, the text is the field. -/
structure Plain (t : Str) : Prop where
  colon : ':' ∉ t
  backslash : '\\' ∉ t
  breakFree : BreakFree t
  stripped : Stripped t

/-- The SSIDs but the hotspot's hold no colon, no backslash and no outer space, and the
security text of their first lines is one line with no backslash and no outer space. -/
structure AllPlain (networks : List Visible) : Prop where
  ssid : ∀ n ∈ networks, n.ssid ≠ hotspotSsid → Plain n.ssid
  security : ∀ ssid n, ssid ≠ hotspotSsid →
    networks.find? (fun n => n.ssid = ssid) = some n → Plain n.security

/-! ### Texts read as they stand -/

def decoded (ssid : Str) : Str := strip (terseField ssid)

theorem terseField_of_plain {t : Str} (h : Plain t) : terseField t = t :=
  escape_of_not_mem h.colon h.backslash

theorem count_decoded (t : Str) :
    (decoded t).count '\\' = 2 * t.count '\\' + t.count ':' := by
  rw [decoded, count_strip (by decide), terseField, count_escape (by decide)]

/-- A text with as many backslashes after the round trip has neither these nor colons. -/
theorem not_mem_of_count_decoded {t : Str} (h : (decoded t).count '\\' = t.count '\\') :
    ':' ∉ t ∧ '\\' ∉ t := by
  rw [count_decoded] at h
  have hcolon : t.count ':' = 0 := by omega
  have hbackslash : t.count '\\' = 0 := by omega
  exact ⟨List.count_eq_zero.mp hcolon, List.count_eq_zero.mp hbackslash⟩

theorem decoded_hotspotSsid : decoded hotspotSsid = hotspotSsid := by decide +kernel

theorem security_entry (n : Visible) : (entry n).security =
    orOpen (strip ((physicalLines (terseField n.security)).headD [])) := rfl

theorem security_iff_plain (n : Visible) :
    (entry n).security = orOpen n.security ↔ Plain n.security := by
  constructor
  · intro h
    by_cases hempty : n.security = []
    · rw [hempty]
      exact ⟨by decide, by decide, by decide, by decide⟩
    rw [orOpen, if_neg hempty, security_entry, orOpen] at h
    split_ifs at h with hopen
    · rw [← h]
      exact ⟨by decide, by decide, by decide, by decide⟩
    obtain ⟨m, ms, hm⟩ :=
      List.exists_cons_of_ne_nil (physicalLines_ne_nil (terseField n.security))
    rw [hm, List.headD_cons] at h
    have hbreak : BreakFree n.security := by
      rw [← h]
      exact (splitlines_breakFree _ m (hm ▸ List.mem_cons_self ..)).strip
    rw [physicalLines_of_breakFree (breakFree_terseField hbreak)] at hm
    cases hm
    have hdecoded : decoded n.security = n.security := h
    have hnot := not_mem_of_count_decoded (congrArg (List.count '\\') hdecoded)
    rw [decoded, terseField, escape_of_not_mem hnot.1 hnot.2] at hdecoded
    exact ⟨hnot.1, hnot.2, hbreak, hdecoded⟩
  · intro h
    rw [security_entry, terseField_of_plain h, physicalLines_of_breakFree h.breakFree,
      List.headD_cons, h.stripped]

section Networks

variable {networks : List Visible}

theorem exists_of_mem_found {m : Network} (h : m ∈ found networks) :
    m.ssid ≠ hotspotSsid ∧ ∃ n ∈ networks, entry n = m := by
  obtain ⟨hlisted, hfind⟩ := mem_found_iff.mp h
  obtain ⟨n, hn, hm⟩ := Option.map_eq_some_iff.mp hfind
  exact ⟨hlisted.2, n, List.mem_of_find?_eq_some hn, hm⟩

/-! ### What is given back is plain -/

/-- A list with every SSID on it is a permutation of what the SSIDs are read as. -/
theorem plain_of_listed (h : ∀ ssid, ssid ≠ hotspotSsid → (∃ n ∈ networks, n.ssid = ssid) →
      ∃ m ∈ found networks, m.ssid = ssid) {n : Visible} (hn : n ∈ networks)
    (hssid : n.ssid ≠ hotspotSsid) : Plain n.ssid := by
  let ssids := ((networks.map Visible.ssid).filter fun ssid => ssid ≠ hotspotSsid).toFinset
  have hmem : ∀ {ssid}, ssid ∈ ssids ↔ (∃ n ∈ networks, n.ssid = ssid) ∧ ssid ≠ hotspotSsid := by
    intro ssid
    simp [ssids]
  have honto : ssids ⊆ ssids.image decoded := by
    intro ssid hin
    obtain ⟨hex, hne⟩ := hmem.mp hin
    obtain ⟨m, hm, rfl⟩ := h ssid hne hex
    obtain ⟨-, n', hn', rfl⟩ := exists_of_mem_found hm
    refine Finset.mem_image.mpr ⟨n'.ssid, hmem.mpr ⟨⟨n', hn', rfl⟩, fun hhot => hne ?_⟩, rfl⟩
    change decoded n'.ssid = hotspotSsid
    rw [hhot, decoded_hotspotSsid]
  have hcount := eq_of_le_of_onto honto (w := fun ssid => ssid.count '\\') fun ssid _ => by
    rw [count_decoded]
    omega
  have hraw : ∀ ssid ∈ ssids, terseField ssid = ssid := fun ssid hin => by
    have hnot := not_mem_of_count_decoded (hcount ssid hin)
    exact escape_of_not_mem hnot.1 hnot.2
  have hlength := eq_of_ge_of_onto honto (w := List.length) fun ssid hin => by
    rw [decoded, hraw ssid hin]
    exact (strip_sublist ssid).length_le
  have hin : n.ssid ∈ ssids := hmem.mpr ⟨⟨n, hn, rfl⟩, hssid⟩
  have hnot := not_mem_of_count_decoded (hcount n.ssid hin)
  refine ⟨hnot.1, hnot.2, n.breakFree, (strip_sublist n.ssid).eq_of_length ?_⟩
  have hlen := hlength n.ssid hin
  rwa [decoded, hraw n.ssid hin] at hlen

theorem ssid_entry (h : ∀ n ∈ networks, n.ssid ≠ hotspotSsid → Plain n.ssid) {n : Visible}
    (hn : n ∈ networks) : (entry n).ssid = n.ssid := by
  change decoded n.ssid = n.ssid
  by_cases hhot : n.ssid = hotspotSsid
  · rw [hhot, decoded_hotspotSsid]
  · have hplain := h n hn hhot
    rw [decoded, terseField_of_plain hplain, hplain.stripped]

theorem find?_entry (h : ∀ n ∈ networks, n.ssid ≠ hotspotSsid → Plain n.ssid) (ssid : Str) :
    (networks.find? fun n => (entry n).ssid = ssid) = networks.find? fun n => n.ssid = ssid :=
  List.find?_congr fun n hn => by rw [ssid_entry h hn]

theorem allPlain_of_decodes (h : Decodes networks (strongest (found networks))) :
    AllPlain networks := by
  have hssid : ∀ n ∈ networks, n.ssid ≠ hotspotSsid → Plain n.ssid := by
    refine fun n hn => plain_of_listed (fun ssid hne hex => ?_) hn
    obtain ⟨m, hm, hkey⟩ := (h.listed ssid).mpr ⟨hne, hex⟩
    exact ⟨m, mem_strongest.mp hm, hkey⟩
  refine ⟨hssid, fun ssid n hne hfind => ?_⟩
  have hn := List.mem_of_find?_eq_some hfind
  have hkey : n.ssid = ssid := by simpa using List.find?_some hfind
  have hentry : (entry n).ssid = ssid := (ssid_entry hssid hn).trans hkey
  have hfound : entry n ∈ found networks := by
    refine mem_found_iff.mpr ⟨⟨?_, hentry ▸ hne⟩, ?_⟩
    · rw [hentry, ← hkey]
      exact n.nonempty
    · rw [find?_entry hssid, hentry, hfind]
      rfl
  refine (security_iff_plain n).mp (h.first _ (mem_strongest.mpr hfound) n ?_).2
  rw [hentry]
  exact hfind

/-! ### What is plain is given back -/

theorem decodes_of_allPlain (h : AllPlain networks) :
    Decodes networks (strongest (found networks)) where
  listed ssid := by
    constructor
    · rintro ⟨m, hm, rfl⟩
      obtain ⟨hne, n, hn, rfl⟩ := exists_of_mem_found (mem_strongest.mp hm)
      exact ⟨hne, n, hn, (ssid_entry h.ssid hn).symm⟩
    · rintro ⟨hne, n, hn, rfl⟩
      have hentry := ssid_entry h.ssid hn
      have hnew : (entry n).ssid ∉ ([[], hotspotSsid] : List Str) := by
        rw [hentry, List.mem_pair, not_or]
        exact ⟨n.nonempty, hne⟩
      obtain ⟨m, hm, hkey⟩ := exists_mem_firstSeen (List.mem_map_of_mem hn) hnew
      exact ⟨m, mem_strongest.mpr hm, hkey.trans hentry⟩
  once := ((strongest_perm _).map _).nodup_iff.mpr (nodup_firstSeen _ _)
  first m hm n hfind := by
    have hfound := mem_strongest.mp hm
    obtain ⟨hlisted, hentry⟩ := mem_found_iff.mp hfound
    rw [find?_entry h.ssid, hfind] at hentry
    cases hentry
    exact ⟨rfl, (security_iff_plain n).mpr (h.security _ n hlisted.2 hfind)⟩
  sorted := pairwise_strongest _

end Networks

/-- The scan gives back what `nmcli` has printed just when the SSIDs and the security
texts on the list are read as they stand: without colons, backslashes or outer spaces. -/
theorem decodes_iff_allPlain (rescan : CompletedProcess) (networks : List Visible) :
    (∃ result, scanNetworks (.ok rescan) (.ok ⟨0, terse networks⟩) = .ok result ∧
      Decodes networks result) ↔ AllPlain networks := by
  rw [scanNetworks_terse]
  constructor
  · rintro ⟨result, hresult, h⟩
    cases hresult
    exact allPlain_of_decodes h
  · exact fun h => ⟨_, rfl, decodes_of_allPlain h⟩

def cafe : Visible := ⟨"cafe:5g", 70, "WPA2", by decide, by decide, by decide⟩

theorem strongest_found_cafe :
    strongest (found [cafe]) = [⟨"cafe\\:5g", "70", "WPA2"⟩] := by decide +kernel

/-- The backslash that escapes the colon stays in the SSID. -/
theorem not_decodes_cafe :
    ¬ ∃ result, scanNetworks (.ok ⟨0, []⟩) (.ok ⟨0, terse [cafe]⟩) = .ok result ∧
      Decodes [cafe] result := by
  rintro ⟨result, hresult, h⟩
  rw [scanNetworks_terse, strongest_found_cafe] at hresult
  cases hresult
  obtain ⟨m, hm, hssid⟩ :=
    (h.listed "cafe:5g").mpr ⟨by decide, cafe, List.mem_singleton_self cafe, rfl⟩
  rw [List.mem_singleton.mp hm] at hssid
  exact absurd hssid (by decide)

end HadcdAgent.WifiProvision
