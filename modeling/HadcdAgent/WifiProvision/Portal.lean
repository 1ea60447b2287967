import HadcdAgent.Lib.Html
import HadcdAgent.Lib.PostBody
import HadcdAgent.WifiProvision.Scan

/-!
# The page and the form of the hotspot

The list of networks on the page that `_build_handler` makes and `do_POST`
(`agent/wifi_provision.py`): what the phone shows, and what comes back from it.
-/

namespace HadcdAgent.WifiProvision

open Lib Lib.PyStr Lib.FormUrl

/-! ### The source -/

def label (n : Network) (ssid security : Str) : Str :=
  ssid ++ " (".toList ++ n.signal ++ "% • ".toList ++ security ++ [')']

def valueStart : Str := "<option value=\""

def valueEnd : Str := "\">"

def optionEnd : Str := "</option>"

def option (n : Network) : Str :=
  valueStart ++ Html.escape n.ssid ++ valueEnd ++
    label n (Html.escape n.ssid) (Html.escape n.security) ++ optionEnd

def networksHtml (networks : List Network) : Str :=
  let html := networks.flatMap option
  if html = [] then "<option value=\"\">No networks found — retry in a moment</option>" else html

def maxBody : ℕ := 16 * 1024

structure Request where
  path : Str
  contentLength : Option Str
  sent : List UInt8

/-- `_ProvisionResult`. -/
structure Result where
  ssid : Str
  password : Str
  deriving DecidableEq

inductive Reply where
  | notFound
  | badRequest (reason : Str)
  | success
  deriving DecidableEq

/-- `params.get(field, [""])[0]`. -/
def param (params : Dict Str (List Str)) (field : Str) : Str :=
  ((params.get field).getD [[]]).headD []

/-- `do_POST`, with what it appends to `result_holder`. -/
def doPost (r : Request) : Reply × Option Result :=
  if r.path ≠ "/connect".toList then (.notFound, none)
  else
    match readBody maxBody r.contentLength r.sent with
    | .error .badLength => (.badRequest "Bad request.", none)
    | .error .tooLarge => (.badRequest "Request too large.", none)
    | .ok raw =>
      let params := readForm raw
      let ssid := strip (param params "ssid")
      let password := param params "pw"
      if ssid = [] then (.badRequest "No SSID provided.", none)
      else if ssid.head? = some '-' || (ssid ++ password).any fun c => c.toNat < 32 then
        (.badRequest "SSID or password contains unsupported characters.", none)
      else (.success, some ⟨ssid, password⟩)

/-! ### The list as the phone reads it -/

/-- A text behind a fixed one. -/
def expect (text t : Str) : Option Str :=
  if text.isPrefixOf t then some (t.drop text.length) else none

/-- An `option` element: its value, its text, and what follows it. -/
def readOption (t : Str) : Option ((Str × Str) × Str) := do
  let t ← expect valueStart t
  let value := t.takeWhile (· ≠ '"')
  let t ← expect valueEnd (t.drop value.length)
  let text := t.takeWhile (· ≠ '<')
  let t ← expect optionEnd (t.drop text.length)
  pure ((Html.unescape value, Html.unescape text), t)

def readOptions : ℕ → Str → Option (List (Str × Str))
  | _, [] => some []
  | 0, _ => none
  | n + 1, t => do
    let (entry, t) ← readOption t
    let entries ← readOptions n t
    pure (entry :: entries)

theorem expect_append (text t : Str) : expect text (text ++ t) = some t := by
  rw [expect, if_pos (List.isPrefixOf_iff_prefix.mpr (List.prefix_append text t)), List.drop_left]

theorem takeWhile_append_cons {c : Char} {t : Str} (h : c ∉ t) (u : Str) :
    (t ++ c :: u).takeWhile (· ≠ c) = t := by
  have hall : ∀ d ∈ t, decide (d ≠ c) = true := fun d hd =>
    decide_eq_true fun heq => h (heq ▸ hd)
  rw [List.takeWhile_append_of_pos hall]
  simp

/-- The signal is text that HTML leaves as it is. -/
def PlainSignal (n : Network) : Prop := '&' ∉ n.signal ∧ '<' ∉ n.signal

section Label

variable {n : Network}

theorem unescape_label (h : PlainSignal n) :
    Html.unescape (label n (Html.escape n.ssid) (Html.escape n.security)) =
      label n n.ssid n.security := by
  have hopen : '&' ∉ " (".toList := by decide
  have hclose : '&' ∉ "% • ".toList := by decide
  simp only [label, List.append_assoc]
  rw [Html.unescape_escape_append, Html.unescape_append_of_not_mem hopen,
    Html.unescape_append_of_not_mem h.1, Html.unescape_append_of_not_mem hclose,
    Html.unescape_escape_append]
  rfl

theorem not_mem_label (h : PlainSignal n) :
    '<' ∉ label n (Html.escape n.ssid) (Html.escape n.security) := by
  have hescape : ∀ t, '<' ∉ Html.escape t := Html.not_mem_escape (by decide)
  have hopen : '<' ∉ " (".toList := by decide
  have hclose : '<' ∉ "% • ".toList := by decide
  simp only [label, List.mem_append, List.mem_singleton, not_or]
  exact ⟨⟨⟨⟨⟨hescape _, hopen⟩, h.2⟩, hclose⟩, hescape _⟩, by decide⟩

theorem readOption_option (h : PlainSignal n) (t : Str) :
    readOption (option n ++ t) = some ((n.ssid, label n n.ssid n.security), t) := by
  have hquote : '"' ∉ Html.escape n.ssid := Html.not_mem_escape (by decide) _
  have hsplit : option n ++ t = valueStart ++ (Html.escape n.ssid ++
      (valueEnd ++ (label n (Html.escape n.ssid) (Html.escape n.security) ++
        (optionEnd ++ t)))) := by
    simp only [option, List.append_assoc]
  have hvalue : ∀ u, (Html.escape n.ssid ++ (valueEnd ++ u)).takeWhile (· ≠ '"') =
      Html.escape n.ssid := fun u => takeWhile_append_cons hquote ('>' :: u)
  have htext : ∀ u, (label n (Html.escape n.ssid) (Html.escape n.security) ++
      (optionEnd ++ u)).takeWhile (· ≠ '<') =
        label n (Html.escape n.ssid) (Html.escape n.security) :=
    fun u => takeWhile_append_cons (not_mem_label h) ("/option>".toList ++ u)
  simp only [hsplit, readOption, expect_append, Option.bind_eq_bind, Option.bind_some, hvalue,
    List.drop_left, htext, Html.unescape_escape, unescape_label h]
  rfl

theorem option_ne_nil (n : Network) : option n ≠ [] := by
  intro h
  rw [option, List.append_eq_nil_iff] at h
  exact absurd h.2 (by decide)

end Label

/-- What a network is shown as. -/
def shown (n : Network) : Str × Str := (n.ssid, label n n.ssid n.security)

theorem readOptions_cons {m : ℕ} {t u : Str} {entry : Str × Str}
    (hread : readOption t = some (entry, u)) (ht : t ≠ []) :
    readOptions (m + 1) t = (readOptions m u).map (entry :: ·) := by
  obtain ⟨c, t, rfl⟩ := List.exists_cons_of_ne_nil ht
  rw [readOptions, hread, Option.bind_eq_bind, Option.bind_some]
  · cases hu : readOptions m u <;> simp only [hu] <;> rfl
  · exact ht

theorem readOptions_flatMap {networks : List Network} (h : ∀ n ∈ networks, PlainSignal n) :
    readOptions networks.length (networks.flatMap option) = some (networks.map shown) := by
  induction networks with
  | nil => rfl
  | cons n networks ih =>
    have hn := h n (List.mem_cons_self ..)
    have hrest := ih fun m hm => h m (List.mem_cons_of_mem n hm)
    have hne : option n ++ networks.flatMap option ≠ [] := by
      rw [ne_eq, List.append_eq_nil_iff]
      exact fun heq => option_ne_nil n heq.1
    rw [List.flatMap_cons, List.length_cons, readOptions_cons (readOption_option hn _) hne, hrest]
    rfl

/-! ### From the scan to the page -/

theorem plainSignal_of_mem_found {networks : List Visible} {n : Network}
    (h : n ∈ found networks) : PlainSignal n := by
  obtain ⟨-, hfind⟩ := mem_found_iff.mp h
  obtain ⟨v, -, rfl⟩ := Option.map_eq_some_iff.mp hfind
  exact ⟨not_mem_toDigits (by decide) _, not_mem_toDigits (by decide) _⟩

/-- Whatever the networks around are called, the page lists one entry for each of those
scanned, in their order, that reads as its SSID and its text. -/
theorem readOptions_networksHtml {rescan : CompletedProcess} {around : List Visible}
    {networks : List Network} (h : scanNetworks (.ok rescan) (.ok ⟨0, terse around⟩) = .ok networks)
    (hne : networks ≠ []) :
    readOptions networks.length (networksHtml networks) = some (networks.map shown) := by
  rw [scanNetworks_terse] at h
  cases h
  have hplain : ∀ n ∈ strongest (found around), PlainSignal n := fun n hn =>
    plainSignal_of_mem_found (mem_strongest.mp hn)
  have hhtml : (strongest (found around)).flatMap option ≠ [] := by
    obtain ⟨n, networks, heq⟩ := List.exists_cons_of_ne_nil hne
    rw [heq, List.flatMap_cons, ne_eq, List.append_eq_nil_iff]
    exact fun heq => option_ne_nil n heq.1
  have hpage : networksHtml (strongest (found around)) =
      (strongest (found around)).flatMap option := if_neg hhtml
  rw [hpage, readOptions_flatMap hplain]

/-! ### What comes back -/

def hasControl (t : Str) : Bool := t.any fun c => c.toNat < 32

/-- What `do_POST` lets through to `nmcli`. -/
structure Result.LetIn (r : Result) : Prop where
  nonempty : r.ssid ≠ []
  stripped : Stripped r.ssid
  noOption : r.ssid.head? ≠ some '-'
  ssid : hasControl r.ssid = false
  password : hasControl r.password = false

theorem refuses_iff {ssid password : Str} :
    (ssid.head? = some '-' || (ssid ++ password).any fun c => c.toNat < 32) = true ↔
      ¬ (ssid.head? ≠ some '-' ∧ hasControl ssid = false ∧ hasControl password = false) := by
  have hany : (ssid ++ password).any (fun c => c.toNat < 32) =
      (hasControl ssid || hasControl password) := List.any_append
  rw [hany]
  cases hasControl ssid <;> cases hasControl password <;> simp

theorem letIn_of_doPost {r : Request} {reply : Reply} {result : Result}
    (h : doPost r = (reply, some result)) : reply = .success ∧ result.LetIn := by
  rw [doPost] at h
  split_ifs at h
  · cases h
  · split at h
    · cases h
    · cases h
    · dsimp only at h
      split_ifs at h with hempty hrefused
      · cases h
      · cases h
      · cases h
        rw [refuses_iff, not_not] at hrefused
        exact ⟨rfl, hempty, stripped_strip _, hrefused.1, hrefused.2.1, hrefused.2.2⟩

def connectForm (result : Result) : List (Str × Str) :=
  [("ssid", result.ssid), ("pw", result.password)]

/-- The request that submits the form with this choice. -/
def submit (safe : SafeSet) (result : Result) : Request :=
  let body := encodeUtf8 (urlencode safe (connectForm result))
  ⟨"/connect", some (Nat.toDigits 10 body.length), body⟩

theorem param_connectForm (safe : SafeSet) (result : Result) :
    param (parseQs (urlencode safe (connectForm result))) "ssid" = result.ssid ∧
      param (parseQs (urlencode safe (connectForm result))) "pw" = result.password := by
  have hvalues : valuesOf "ssid" (connectForm result) =
        (if result.ssid = [] then [] else [result.ssid]) ∧
      valuesOf "pw" (connectForm result) =
        (if result.password = [] then [] else [result.password]) := by
    constructor
    · by_cases h : result.ssid = [] <;> simp [valuesOf, connectForm, h]
    · by_cases h : result.password = [] <;> simp [valuesOf, connectForm, h]
  rw [param, param, get_parseQs_urlencode, get_parseQs_urlencode, hvalues.1, hvalues.2]
  constructor
  · by_cases h : result.ssid = [] <;> simp [h]
  · by_cases h : result.password = [] <;> simp [h]

/-- The choice that is submitted is the one that is let through. -/
theorem doPost_choice {safe : SafeSet} {result : Result} (h : result.LetIn)
    (hlength : (encodeUtf8 (urlencode safe (connectForm result))).length ≤ maxBody) :
    doPost (submit safe result) = (.success, some result) := by
  have hread : readBody maxBody (submit safe result).contentLength (submit safe result).sent =
      .ok (encodeUtf8 (urlencode safe (connectForm result))) := by
    have hread := readBody_of_le (by decide) hlength []
    rwa [List.append_nil] at hread
  have hform := readForm_urlencode safe (connectForm result)
  obtain ⟨hssid, hpassword⟩ := param_connectForm safe result
  have hstrip : strip result.ssid = result.ssid := h.stripped
  have hpath : (submit safe result).path = "/connect".toList := rfl
  have hrefused := refuses_iff.not.mpr (not_not.mpr ⟨h.noOption, h.ssid, h.password⟩)
  rw [doPost, if_neg (not_not.mpr hpath), hread]
  simp only [hform, hssid, hpassword, hstrip]
  rw [if_neg h.nonempty, if_neg hrefused]

end HadcdAgent.WifiProvision
