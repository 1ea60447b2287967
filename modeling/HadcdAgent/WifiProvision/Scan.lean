import HadcdAgent.Lib.Escape
import HadcdAgent.Lib.FirstSeen
import HadcdAgent.Lib.PyStr

/-!
# Scanning for networks

`scan_networks` (`agent/wifi_provision.py`) on what `nmcli` prints in terse mode: one line
a network, the fields joined by colons, and a colon or a backslash within a field escaped
by a backslash.
-/

namespace HadcdAgent.WifiProvision

open Lib Lib.PyStr

/-! ### The source -/

def hotspotSsid : Str := "HADCD-Setup"

/-- What `_run` raises: the time is up, or the program cannot be started. -/
inductive RunError where
  | timeoutExpired
  | osError

structure CompletedProcess where
  returncode : ℤ
  stdout : Str

structure Network where
  ssid : Str
  signal : Str
  security : Str
  deriving DecidableEq

/-- `parts[2].strip() or "open"`. -/
def orOpen (security : Str) : Str := if security = [] then "open" else security

def parseLine (line : Str) : Option Network :=
  match rsplit ':' 2 line with
  | [ssid, signal, security] => some ⟨strip ssid, strip signal, orOpen (strip security)⟩
  | _ => none

def collect : List Str → List Str → List Network
  | _, [] => []
  | seen, line :: lines =>
    match parseLine line with
    | none => collect seen lines
    | some n =>
      if n.ssid = [] ∨ n.ssid = hotspotSsid ∨ n.ssid ∈ seen then collect seen lines
      else n :: collect (n.ssid :: seen) lines

/-- `int(n["signal"]) if n["signal"].isdigit() else 0`, of ASCII digits. -/
def strength (n : Network) : ℕ :=
  if n.signal ≠ [] ∧ n.signal.all Char.isDigit then Nat.ofDigitChars 10 n.signal 0 else 0

def strongest (networks : List Network) : List Network :=
  networks.insertionSort fun m n => strength n ≤ strength m

def scanNetworks (rescan list : Except RunError CompletedProcess) :
    Except RunError (List Network) := do
  let _ ← rescan
  let r ← list
  if r.returncode ≠ 0 then pure [] else pure (strongest (collect [] (splitlines r.stdout)))

/-! ### What nmcli prints -/

structure Visible where
  ssid : Str
  signal : ℕ
  security : Str
  nonempty : ssid ≠ []
  breakFree : BreakFree ssid
  noColon : ':' ∉ security

def terseField (t : Str) : Str := escape ':' '\\' t

def terseLine (n : Visible) : Str :=
  terseField n.ssid ++ ':' :: (Nat.toDigits 10 n.signal ++ ':' :: terseField n.security)

/-- The output, read in text mode. -/
def terse (networks : List Visible) : Str :=
  universalNewlines (networks.flatMap fun n => terseLine n ++ ['\n'])

/-! ### The lines -/

/-- What the line of a network is taken for. -/
def entry (n : Visible) : Network :=
  ⟨strip (terseField n.ssid), Nat.toDigits 10 n.signal,
    orOpen (strip ((physicalLines (terseField n.security)).headD []))⟩

theorem not_mem_terseField {c : Char} {t : Str} (hc : c ≠ '\\') (h : c ∉ t) :
    c ∉ terseField t := fun hmem => (mem_of_mem_escape hmem).elim hc h

theorem breakFree_terseField {t : Str} (h : BreakFree t) : BreakFree (terseField t) := by
  intro c hc
  rcases mem_of_mem_escape hc with rfl | hmem
  · decide
  · exact h c hmem

theorem not_mem_toDigits {c : Char} (hc : c.isDigit = false) (n : ℕ) :
    c ∉ Nat.toDigits 10 n := fun h => by
  rw [isDigit_of_mem_toDigits h] at hc
  cases hc

theorem not_mem_physicalLines {t l : Str} (ht : ':' ∉ t) (hl : l ∈ physicalLines t) :
    ':' ∉ l := by
  intro hc
  have hmem := mem_of_mem_splitlinesFrom false _ l hl ':' hc
  rcases List.mem_append.mp hmem with h | h
  · exact ht h
  · exact absurd (List.mem_singleton.mp h) (by decide)

theorem parseLine_of_not_mem {l : Str} (h : ':' ∉ l) : parseLine l = none := by
  rw [parseLine, rsplit_of_not_mem h]

/-- The first line of what is printed for a network is its entry; the others, if the
security text goes on, are no entries. -/
theorem filterMap_parseLine_terseLine (n : Visible) :
    (physicalLines (terseLine n)).filterMap parseLine = [entry n] := by
  have hdigits : SpaceFree (Nat.toDigits 10 n.signal) := spaceFree_toDigits n.signal
  have hsecurity : ':' ∉ terseField n.security := not_mem_terseField (by decide) n.noColon
  obtain ⟨m, ms, hm⟩ := List.exists_cons_of_ne_nil (physicalLines_ne_nil (terseField n.security))
  have hcolon : ∀ l ∈ m :: ms, ':' ∉ l := fun l hl => not_mem_physicalLines hsecurity (hm ▸ hl)
  have hline : terseLine n =
      (terseField n.ssid ++ ':' :: (Nat.toDigits 10 n.signal ++ [':'])) ++
        terseField n.security := by
    rw [terseLine]
    simp
  have hbreak : BreakFree (terseField n.ssid ++ ':' :: (Nat.toDigits 10 n.signal ++ [':'])) := by
    rw [breakFree_append, breakFree_cons, breakFree_append]
    exact ⟨breakFree_terseField n.breakFree, by decide, hdigits.breakFree, by decide⟩
  have hfields : (terseField n.ssid ++ ':' :: (Nat.toDigits 10 n.signal ++ [':'])) ++ m =
      (terseField n.ssid ++ ':' :: Nat.toDigits 10 n.signal) ++ ':' :: m := by simp
  have hentry : parseLine ((terseField n.ssid ++ ':' :: (Nat.toDigits 10 n.signal ++ [':'])) ++ m) =
      some (entry n) := by
    rw [hfields, parseLine, rsplit_append (hcolon m (List.mem_cons_self ..)),
      rsplit_append (not_mem_toDigits (by decide) n.signal), rsplit, entry, hm]
    change some (Network.mk _ (strip (Nat.toDigits 10 n.signal)) _) = _
    rw [hdigits.stripped]
    rfl
  rw [hline, physicalLines_append_eq hbreak hm, List.filterMap_cons, hentry]
  have hrest : ms.filterMap parseLine = [] := by
    rw [List.filterMap_eq_nil_iff]
    intro l hl
    exact parseLine_of_not_mem (hcolon l (List.mem_cons_of_mem m hl))
  rw [hrest]

theorem splitlines_terse (networks : List Visible) :
    splitlines (terse networks) = networks.flatMap fun n => physicalLines (terseLine n) := by
  rw [terse, splitlines_universalNewlines]
  exact splitlines_flatMap_nl terseLine networks

theorem filterMap_parseLine_terse (networks : List Visible) :
    (splitlines (terse networks)).filterMap parseLine = networks.map entry := by
  rw [splitlines_terse, List.filterMap_flatMap]
  simp only [filterMap_parseLine_terseLine]
  exact List.map_eq_flatMap.symm

/-! ### The entries kept -/

theorem collect_eq {seen seen' : List Str} (lines : List Str)
    (h : ∀ ssid, ssid ∈ seen' ↔ ssid = [] ∨ ssid = hotspotSsid ∨ ssid ∈ seen) :
    collect seen lines = firstSeen Network.ssid seen' (lines.filterMap parseLine) := by
  induction lines generalizing seen seen' with
  | nil => rfl
  | cons line lines ih =>
    rw [collect, List.filterMap_cons]
    cases hline : parseLine line with
    | none => exact ih h
    | some n =>
      dsimp only
      rw [firstSeen]
      by_cases hseen : n.ssid ∈ seen'
      · rw [if_pos ((h _).mp hseen), if_pos hseen]
        exact ih h
      · rw [if_neg ((h _).not.mp hseen), if_neg hseen]
        refine congrArg (n :: ·) (ih fun ssid => ?_)
        rw [List.mem_cons, List.mem_cons, h]
        tauto

def found (networks : List Visible) : List Network :=
  firstSeen Network.ssid [[], hotspotSsid] (networks.map entry)

theorem scanNetworks_terse (rescan : CompletedProcess) (networks : List Visible) :
    scanNetworks (.ok rescan) (.ok ⟨0, terse networks⟩) = .ok (strongest (found networks)) := by
  have hcollect : collect [] (splitlines (terse networks)) = found networks := by
    rw [@collect_eq [] [[], hotspotSsid] _ (by simp), filterMap_parseLine_terse, found]
  change Except.ok (strongest (collect [] (splitlines (terse networks)))) = _
  rw [hcollect]

theorem mem_strongest {networks : List Network} {n : Network} :
    n ∈ strongest networks ↔ n ∈ networks := List.mem_insertionSort _

theorem strongest_perm (networks : List Network) : (strongest networks).Perm networks :=
  List.perm_insertionSort _ _

theorem pairwise_strongest (networks : List Network) :
    (strongest networks).Pairwise fun m n => strength n ≤ strength m := by
  have : Std.Total fun m n : Network => strength n ≤ strength m :=
    ⟨fun m n => Nat.le_total (strength n) (strength m)⟩
  have : IsTrans Network fun m n : Network => strength n ≤ strength m :=
    ⟨fun _ _ _ h h' => Nat.le_trans h' h⟩
  exact List.pairwise_insertionSort _ _

theorem mem_found_iff {networks : List Visible} {m : Network} : m ∈ found networks ↔
    (m.ssid ≠ [] ∧ m.ssid ≠ hotspotSsid) ∧
      (networks.find? fun n => (entry n).ssid = m.ssid).map entry = some m := by
  rw [found, mem_firstSeen, List.find?_map]
  simp only [List.mem_cons, List.not_mem_nil, or_false, not_or]
  rfl

end HadcdAgent.WifiProvision
