import HadcdAgent.Lib.Final
import HadcdAgent.WifiProvision.Portal

/-!
# One boot of the provisioner

`provision` (`agent/wifi_provision.py`) with the helpers that run `nmcli`. What the
programs answer, the requests of the phones and whether the flag can be written are the
boot's; the commands issued and the flag are what it leaves.
-/

namespace HadcdAgent.WifiProvision

open Lib Lib.PyStr

/-! ### The source -/

abbrev Argv := List Str

abbrev Ran := Except RunError CompletedProcess

structure Node where
  commands : List Argv
  flag : Bool

/-- `requests` are those handled before the server is shut down, each with whether its
answer went out. All of them end: the server, without a timeout, waits for one that stalls. -/
structure Boot where
  which : Ran
  ethernet : Ran
  connections : Ran
  devices : Ran
  rescan : Ran
  list : Ran
  leftover : Ran
  hotspot : Ran
  binds : Bool
  requests : List (Request × Bool)
  teardown : Ran
  connect : Ran
  touched : Bool

def argv (words : List String) : Argv := words.map String.toList

def hotspotConnName : Str := "HADCD-Provision"

def hotspotPassword : Str := "hadcdsetup"

def whichNmcli : Argv := argv ["which", "nmcli"]

def deviceStatus (fields : String) : Argv := argv ["nmcli", "-t", "-f", fields, "device", "status"]

def connectionShow : Argv := argv ["nmcli", "-t", "-f", "TYPE,NAME", "connection", "show"]

def wifiRescan (iface : Str) : Argv := argv ["nmcli", "device", "wifi", "rescan", "ifname"] ++ [iface]

def wifiList (iface : Str) : Argv :=
  argv ["nmcli", "--terse", "--fields", "SSID,SIGNAL,SECURITY", "device", "wifi", "list", "ifname"] ++
    [iface]

def deleteHotspot : Argv := argv ["nmcli", "connection", "delete"] ++ [hotspotConnName]

def wifiHotspot (iface : Str) : Argv :=
  argv ["nmcli", "device", "wifi", "hotspot", "ifname"] ++ [iface, "ssid".toList, hotspotSsid,
    "password".toList, hotspotPassword, "con-name".toList, hotspotConnName]

def wifiConnect (iface : Str) (result : Result) : Argv :=
  argv ["nmcli", "device", "wifi", "connect"] ++ [result.ssid, "ifname".toList, iface] ++
    if result.password = [] then [] else ["password".toList, result.password]

def Node.issued (n : Node) (cmds : List Argv) : Node := { n with commands := n.commands ++ cmds }

/-- `_run`. -/
def run (cmd : Argv) (ran : Ran) : EStateM RunError Node CompletedProcess := do
  modify fun n => n.issued [cmd]
  liftExcept ran

def wifiTypes : List Str := ["wifi", "802-11-wireless"]

def ethernetTypes : List Str := ["ethernet", "802-3-ethernet"]

/-- `parts = line.split(":")`, read in lower case without outer blanks. -/
def lowered (part : Str) : Str := lower (strip part)

def findWifiInterface (r : CompletedProcess) : Option Str :=
  if r.returncode ≠ 0 then none
  else (splitlines r.stdout).findSome? fun line =>
    match line.splitOn ':' with
    | device :: type :: _ => if lowered type ∈ wifiTypes then some (strip device) else none
    | _ => none

def ethernetConnected (r : CompletedProcess) : Bool :=
  r.returncode = 0 && (splitlines r.stdout).any fun line =>
    match line.splitOn ':' with
    | type :: state :: _ => lowered type ∈ ethernetTypes && lowered state = "connected".toList
    | _ => false

def wifiAlreadyConfigured (r : CompletedProcess) : Bool :=
  r.returncode = 0 && (splitlines r.stdout).any fun line =>
    match line.splitOn ':' with
    | type :: _ => lowered type ∈ wifiTypes
    | [] => false

/-- `result_holder[0]`, once `done` is set: a request is let through and answered. -/
def serve (requests : List (Request × Bool)) : Option Result :=
  if requests.any fun r => (doPost r.1).2.isSome && r.2 then
    (requests.filterMap fun r => (doPost r.1).2).head?
  else none

/-- From the scan on. -/
def openPortal (boot : Boot) (iface : Str) : EStateM RunError Node ℤ := do
  let rescan ← run (wifiRescan iface) boot.rescan
  let list ← run (wifiList iface) boot.list
  let _ ← liftExcept (scanNetworks (.ok rescan) (.ok list))
  let _ ← run deleteHotspot boot.leftover
  let hotspot ← run (wifiHotspot iface) boot.hotspot
  if hotspot.returncode ≠ 0 then pure 1
  else
    match (if boot.binds then serve boot.requests else none) with
    | none => do
      let _ ← run deleteHotspot boot.teardown
      pure 1
    | some result => do
      let _ ← run deleteHotspot boot.teardown
      let connect ← run (wifiConnect iface result) boot.connect
      if connect.returncode ≠ 0 then pure 1
      else do
        modify fun n => { n with flag := n.flag || boot.touched }
        pure 0

def provision (boot : Boot) : EStateM RunError Node ℤ := do
  let which ← run whichNmcli boot.which
  if which.returncode ≠ 0 then pure 0
  else do
    let n ← get
    if n.flag then pure 0
    else do
      let ethernet ← run (deviceStatus "TYPE,STATE") boot.ethernet
      if ethernetConnected ethernet then pure 0
      else do
        let connections ← run connectionShow boot.connections
        if wifiAlreadyConfigured connections then pure 0
        else do
          let devices ← run (deviceStatus "DEVICE,TYPE") boot.devices
          match findWifiInterface devices with
          | none | some [] => pure 0
          | some iface => openPortal boot iface

/-! ### The commands of a boot -/

def Boot.iface (boot : Boot) : Str :=
  (boot.devices.toOption.bind findWifiInterface).getD []

def Boot.result (boot : Boot) : Result := (serve boot.requests).getD ⟨[], []⟩

def portalScript (boot : Boot) (iface : Str) : List Argv :=
  [wifiRescan iface, wifiList iface, deleteHotspot, wifiHotspot iface, deleteHotspot,
    wifiConnect iface boot.result]

/-- The commands of a boot that goes through. -/
def script (boot : Boot) : List Argv :=
  [whichNmcli, deviceStatus "TYPE,STATE", connectionShow, deviceStatus "DEVICE,TYPE"] ++
    portalScript boot boot.iface

def succeeds (ran : Ran) : Prop := ∃ r, ran = .ok r ∧ r.returncode = 0

/-- From the scan on, `k` commands are issued. -/
structure Portal (boot : Boot) (iface : Str) (m t : Node) (k : ℕ) : Prop where
  commands : t.commands = m.commands ++ (portalScript boot iface).take k
  tornDown : succeeds boot.hotspot → k ≠ 4
  chosen : 6 ≤ k → (serve boot.requests).isSome = true
  flagged : t.flag = true → m.flag = true ∨ 6 ≤ k ∧ succeeds boot.connect

/-- The first `k` commands of the boot are issued. A hotspot that came up is taken down
again, the flag ends the boot at once, and it is set only behind a connection. -/
structure Leaves (boot : Boot) (n t : Node) (k : ℕ) : Prop where
  commands : t.commands = n.commands ++ (script boot).take k
  skipped : n.flag = true → k ≤ 1
  tornDown : succeeds boot.hotspot → k ≠ 8
  chosen : 10 ≤ k → (serve boot.requests).isSome = true
  flagged : t.flag = true → n.flag = true ∨ 10 ≤ k ∧ succeeds boot.connect

/-- The state behind the first `k` commands of a script. -/
def Node.upTo (n : Node) (cmds : List Argv) (k : ℕ) : Node := n.issued (cmds.take k)

section Run

variable {α : Type} {boot : Boot} {iface : Str} {cmd : Argv} {cmds : List Argv} {ran : Ran}
  {n m : Node} {k : ℕ} {f : CompletedProcess → EStateM RunError Node α}

theorem upTo_zero (n : Node) (cmds : List Argv) : n.upTo cmds 0 = n := by
  rw [Node.upTo, List.take_zero, Node.issued, List.append_nil]

theorem issued_upTo (h : cmds[k]? = some cmd) : (n.upTo cmds k).issued [cmd] = n.upTo cmds (k + 1) := by
  rw [Node.upTo, Node.upTo, Node.issued, Node.issued, Node.issued, List.take_add_one, h,
    List.append_assoc]
  rfl

theorem final_run_error {e : RunError} (hcmd : cmds[k]? = some cmd) :
    final (run cmd (.error e) >>= f) (n.upTo cmds k) = n.upTo cmds (k + 1) := by
  rw [← issued_upTo hcmd]
  rfl

theorem final_run_ok {r : CompletedProcess} (hcmd : cmds[k]? = some cmd) :
    final (run cmd (.ok r) >>= f) (n.upTo cmds k) = final (f r) (n.upTo cmds (k + 1)) := by
  rw [← issued_upTo hcmd]
  rfl

/-- Whatever the last command answers. -/
theorem final_run_last (hcmd : cmds[k]? = some cmd) {a : α} :
    final (run cmd ran >>= fun _ => pure a) (n.upTo cmds k) = n.upTo cmds (k + 1) := by
  cases ran with
  | error e => exact final_run_error hcmd
  | ok r => exact final_run_ok hcmd

theorem portal_upTo (htorn : succeeds boot.hotspot → k ≠ 4) (hk : k ≤ 5) :
    Portal boot iface m (m.upTo (portalScript boot iface) k) k :=
  ⟨rfl, htorn, fun h => by omega, Or.inl⟩

theorem portal_error {e : RunError} (hcmd : (portalScript boot iface)[k]? = some cmd)
    (htorn : succeeds boot.hotspot → k ≠ 3) (hk : k ≤ 4)
    {f : CompletedProcess → EStateM RunError Node ℤ} :
    ∃ j, Portal boot iface m
      (final (run cmd (.error e) >>= f) (m.upTo (portalScript boot iface) k)) j := by
  rw [final_run_error hcmd]
  exact ⟨k + 1, portal_upTo (fun h => by have := htorn h; omega) (by omega)⟩

theorem result_of_serve {result : Result} (h : serve boot.requests = some result) :
    boot.result = result := by
  rw [Boot.result, h, Option.getD_some]

theorem portal_connect {result : Result} (h : serve boot.requests = some result) :
    ∃ k, Portal boot iface m (final (do
      let connect ← run (wifiConnect iface result) boot.connect
      if connect.returncode ≠ 0 then pure 1
      else do
        modify fun n => { n with flag := n.flag || boot.touched }
        pure 0 : EStateM RunError Node ℤ) (m.upTo (portalScript boot iface) 5)) k := by
  have hcmd : (portalScript boot iface)[5]? = some (wifiConnect iface result) := by
    rw [← result_of_serve h]
    rfl
  have hchosen : (serve boot.requests).isSome = true := by
    rw [h]
    rfl
  cases hconnect : boot.connect with
  | error e =>
    rw [final_run_error hcmd]
    exact ⟨6, rfl, fun _ => by omega, fun _ => hchosen, Or.inl⟩
  | ok connect =>
    rw [final_run_ok hcmd]
    by_cases hcode : connect.returncode ≠ 0
    · rw [if_pos hcode]
      exact ⟨6, rfl, fun _ => by omega, fun _ => hchosen, Or.inl⟩
    · rw [if_neg hcode]
      refine ⟨6, rfl, fun _ => by omega, fun _ => hchosen, fun _ => Or.inr ⟨le_rfl, ?_⟩⟩
      exact ⟨connect, hconnect, not_not.mp hcode⟩

theorem portal_openPortal (boot : Boot) (iface : Str) (m : Node) :
    ∃ k, Portal boot iface m (final (openPortal boot iface) m) k := by
  have hstart : final (openPortal boot iface) m =
      final (openPortal boot iface) (m.upTo (portalScript boot iface) 0) := by rw [upTo_zero]
  rw [hstart, openPortal]
  cases boot.rescan with
  | error e => exact portal_error rfl (by omega) (by omega)
  | ok rescan =>
  rw [final_run_ok rfl]
  cases boot.list with
  | error e => exact portal_error rfl (by omega) (by omega)
  | ok list =>
  rw [final_run_ok rfl]
  cases hscan : scanNetworks (.ok rescan) (.ok list) with
  | error e => exact ⟨2, portal_upTo (by omega) (by omega)⟩
  | ok networks =>
  rw [final_bind_of_ok (show (liftExcept (.ok networks) : EStateM RunError Node _) _ = _ from rfl)]
  cases boot.leftover with
  | error e => exact portal_error rfl (by omega) (by omega)
  | ok leftover =>
  rw [final_run_ok rfl]
  cases hhotspot : boot.hotspot with
  | error e =>
    rw [final_run_error rfl]
    refine ⟨4, portal_upTo ?_ (by omega)⟩
    rintro ⟨r, hr, -⟩
    rw [hhotspot] at hr
    cases hr
  | ok hotspot =>
  rw [final_run_ok rfl]
  by_cases hcode : hotspot.returncode ≠ 0
  · rw [if_pos hcode]
    refine ⟨4, portal_upTo ?_ (by omega)⟩
    rintro ⟨r, hr, hzero⟩
    rw [hhotspot] at hr
    cases hr
    exact absurd hzero hcode
  -- the hotspot is up: whatever comes, the next command takes it down
  rw [if_neg hcode]
  cases hchosen : (if boot.binds then serve boot.requests else none) with
  | none =>
    dsimp only
    rw [final_run_last rfl]
    exact ⟨5, portal_upTo (by omega) (by omega)⟩
  | some result =>
    have hserve : serve boot.requests = some result := by
      split_ifs at hchosen
      exact hchosen
    dsimp only
    cases boot.teardown with
    | error e => exact portal_error rfl (by omega) (by omega)
    | ok teardown =>
    rw [final_run_ok rfl]
    exact portal_connect hserve

theorem leaves_upTo (hk : k ≤ 7) (hskip : n.flag = true → k ≤ 1) :
    Leaves boot n (n.upTo (script boot) k) k :=
  ⟨rfl, hskip, fun _ => by omega, fun h => by omega, Or.inl⟩

theorem leaves_error {e : RunError} (hcmd : (script boot)[k]? = some cmd) (hk : k ≤ 6)
    (hskip : n.flag = true → k = 0) {f : CompletedProcess → EStateM RunError Node ℤ} :
    ∃ j, Leaves boot n (final (run cmd (.error e) >>= f) (n.upTo (script boot) k)) j := by
  rw [final_run_error hcmd]
  exact ⟨k + 1, leaves_upTo (by omega) fun h => by rw [hskip h]⟩

/-- Behind the checks, which issue four commands. -/
theorem leaves_portal {t : Node} (hiface : boot.iface = iface) (hflag : n.flag = false)
    (h : Portal boot iface (n.upTo (script boot) 4) t k) : Leaves boot n t (4 + k) := by
  have htake : (script boot).take (4 + k) =
      (script boot).take 4 ++ (portalScript boot iface).take k := by
    rw [← hiface, Nat.add_comm]
    rfl
  have hcommands : t.commands = n.commands ++ (script boot).take (4 + k) := by
    rw [h.commands, htake, ← List.append_assoc]
    rfl
  refine ⟨hcommands, fun hn => ?_, fun hs => ?_, fun hk => h.chosen (by omega), fun ht => ?_⟩
  · rw [hflag] at hn
    cases hn
  · have := h.tornDown hs
    omega
  · exact (h.flagged ht).imp_right fun hc => ⟨by omega, hc.2⟩

theorem leaves_provision (boot : Boot) (n : Node) :
    ∃ k, Leaves boot n (final (provision boot) n) k := by
  have hstart : final (provision boot) n =
      final (provision boot) (n.upTo (script boot) 0) := by rw [upTo_zero]
  rw [hstart, provision]
  cases boot.which with
  | error e => exact leaves_error rfl (by omega) fun _ => rfl
  | ok which =>
  rw [final_run_ok rfl]
  split_ifs
  · exact ⟨1, leaves_upTo (by omega) fun _ => le_rfl⟩
  rw [final_bind_of_ok (show (get : EStateM RunError Node _) _ = _ from rfl)]
  have hflagged : (n.upTo (script boot) 1).flag = n.flag := rfl
  cases hflag : n.flag with
  | true =>
    rw [hflagged, hflag, if_pos rfl]
    exact ⟨1, leaves_upTo (by omega) fun _ => le_rfl⟩
  | false =>
  have hskip : ∀ {p : Prop}, n.flag = true → p := fun h => by
    rw [hflag] at h
    cases h
  rw [hflagged, hflag, if_neg Bool.false_ne_true]
  cases boot.ethernet with
  | error e => exact leaves_error rfl (by omega) hskip
  | ok ethernet =>
  rw [final_run_ok rfl]
  split_ifs
  · exact ⟨2, leaves_upTo (by omega) hskip⟩
  cases boot.connections with
  | error e => exact leaves_error rfl (by omega) hskip
  | ok connections =>
  rw [final_run_ok rfl]
  split_ifs
  · exact ⟨3, leaves_upTo (by omega) hskip⟩
  cases hdevices : boot.devices with
  | error e => exact leaves_error rfl (by omega) hskip
  | ok devices =>
  rw [final_run_ok rfl]
  cases hfind : findWifiInterface devices with
  | none => exact ⟨4, leaves_upTo (by omega) hskip⟩
  | some iface =>
    cases iface with
    | nil => exact ⟨4, leaves_upTo (by omega) hskip⟩
    | cons c cs =>
      have hiface : boot.iface = c :: cs := by
        rw [Boot.iface, hdevices]
        change (findWifiInterface devices).getD [] = c :: cs
        rw [hfind, Option.getD_some]
      obtain ⟨k, hk⟩ := portal_openPortal boot (c :: cs) (n.upTo (script boot) 4)
      exact ⟨4 + k, leaves_portal hiface hflag hk⟩

end Run

/-! ### Boots -/

theorem mem_of_serve {requests : List (Request × Bool)} {result : Result}
    (h : serve requests = some result) :
    ∃ before r after, requests = before ++ r :: after ∧ doPost r.1 = (.success, some result) ∧
      ∀ q ∈ before, (doPost q.1).2 = none := by
  rw [serve] at h
  split_ifs at h with hdone
  clear hdone
  induction requests with
  | nil => cases h
  | cons r requests ih =>
    rw [List.filterMap_cons] at h
    cases hr : (doPost r.1).2 with
    | some first =>
      rw [hr, List.head?_cons] at h
      cases h
      have hpair : doPost r.1 = ((doPost r.1).1, some result) := by rw [← hr]
      refine ⟨[], r, requests, rfl, ?_, fun q hq => (nomatch hq)⟩
      rw [hpair, (letIn_of_doPost hpair).1]
    | none =>
      rw [hr] at h
      obtain ⟨before, q, after, rfl, hq, hbefore⟩ := ih h
      exact ⟨r :: before, q, after, rfl, hq, List.forall_mem_cons.mpr ⟨hr, hbefore⟩⟩

/-- Boots one after the other. -/
def boots (n : Node) : List Boot → Node
  | [] => n
  | boot :: rest => boots (final (provision boot) n) rest

/-- What a boot has issued, and what the choice that it connected to is. -/
structure Safe (boot : Boot) (n t : Node) : Prop where
  /-- The commands of the script, in its order; behind a hotspot that came up they go on. -/
  commands : ∃ k, t.commands = n.commands ++ (script boot).take k ∧
    (n.flag = true → k ≤ 1) ∧ (succeeds boot.hotspot → k ≠ 8) ∧
    (10 ≤ k → boot.result.LetIn ∧ ∃ before r after, boot.requests = before ++ r :: after ∧
      doPost r.1 = (.success, some boot.result) ∧ ∀ q ∈ before, (doPost q.1).2 = none)
  flagged : t.flag = true → n.flag = true ∨
    wifiConnect boot.iface boot.result ∈ t.commands ∧ succeeds boot.connect

/-- Every boot issues the commands of its script up to some point. A hotspot that came up
is taken down by the next command, the node is connected to the first choice that was let
through, which is no option of the command, and the flag is set only behind that. -/
theorem safe_provision (boot : Boot) (n : Node) : Safe boot n (final (provision boot) n) := by
  obtain ⟨k, hk⟩ := leaves_provision boot n
  refine ⟨⟨k, hk.commands, hk.skipped, hk.tornDown, fun hten => ?_⟩, fun hflag => ?_⟩
  · obtain ⟨result, hserve⟩ := Option.isSome_iff_exists.mp (hk.chosen hten)
    obtain ⟨before, r, after, hrequests, hpost, hbefore⟩ := mem_of_serve hserve
    rw [result_of_serve hserve]
    exact ⟨(letIn_of_doPost hpost).2, before, r, after, hrequests, hpost, hbefore⟩
  · rcases hk.flagged hflag with hn | ⟨hten, hconnect⟩
    · exact Or.inl hn
    · refine Or.inr ⟨?_, hconnect⟩
      have hall : (script boot).take k = script boot := List.take_of_length_le hten
      rw [hk.commands, hall, List.mem_append]
      exact Or.inr (by simp [script, portalScript])

theorem provision_of_flag {n : Node} (h : n.flag = true) (boot : Boot) :
    final (provision boot) n = n.issued [whichNmcli] := by
  rw [provision]
  cases boot.which with
  | error e => rfl
  | ok which =>
    change final (if which.returncode ≠ 0 then pure 0 else _ : EStateM RunError Node ℤ)
      (n.issued [whichNmcli]) = _
    split_ifs
    · rfl
    · rw [final_bind_of_ok (show (get : EStateM RunError Node _) _ = _ from rfl), if_pos]
      · rfl
      · exact h

/-- Once the flag is set, no boot issues anything but the check for `nmcli`. -/
theorem boots_of_flag {n : Node} (h : n.flag = true) (bs : List Boot) :
    boots n bs = n.issued (List.replicate bs.length whichNmcli) := by
  induction bs generalizing n with
  | nil => simp [boots, Node.issued]
  | cons boot bs ih =>
    have hflag : (n.issued [whichNmcli]).flag = true := h
    rw [boots, provision_of_flag h, ih hflag, Node.issued, Node.issued, Node.issued,
      List.append_assoc, List.length_cons, List.replicate_succ]
    rfl

/-! ### From the networks around to the command -/

theorem serve_of_first {r : Request} {result : Result} (h : doPost r = (.success, some result))
    (rest : List (Request × Bool)) : serve ((r, true) :: rest) = some result := by
  rw [serve, if_pos]
  · simp [h]
  · simp [h]

/-- The SSID is no option of the command, and with the password it is text that `do_POST`
takes in. -/
structure Acceptable (safe : FormUrl.SafeSet) (ssid password : Str) : Prop where
  noOption : ssid.head? ≠ some '-'
  cleanSsid : hasControl ssid = false
  cleanPassword : hasControl password = false
  fits : (encodeUtf8 (FormUrl.urlencode safe (connectForm ⟨ssid, password⟩))).length ≤ maxBody

/-- The page shows one entry for each network scanned, and an entry that is sent back with
a password is what `nmcli` is told to connect to: the name of a network around, as `nmcli`
printed it. -/
theorem serve_shown {rescan : CompletedProcess} {around : List Visible} {networks : List Network}
    (hscan : scanNetworks (.ok rescan) (.ok ⟨0, terse around⟩) = .ok networks)
    (hne : networks ≠ []) :
    readOptions networks.length (networksHtml networks) = some (networks.map shown) ∧
      ∀ entry ∈ networks.map shown, ∀ safe password, Acceptable safe entry.1 password →
        (∀ rest, serve ((submit safe ⟨entry.1, password⟩, true) :: rest) =
          some ⟨entry.1, password⟩) ∧ ∃ v ∈ around, strip (terseField v.ssid) = entry.1 := by
  refine ⟨readOptions_networksHtml hscan hne, fun entry hentry safe password h => ?_⟩
  obtain ⟨n, hn, rfl⟩ := List.mem_map.mp hentry
  rw [scanNetworks_terse] at hscan
  cases hscan
  obtain ⟨⟨hnonempty, -⟩, hfind⟩ := mem_found_iff.mp (mem_strongest.mp hn)
  obtain ⟨v, hv, rfl⟩ := Option.map_eq_some_iff.mp hfind
  have hletIn : (Result.mk (shown (WifiProvision.entry v)).1 password).LetIn :=
    ⟨hnonempty, stripped_strip _, h.noOption, h.cleanSsid, h.cleanPassword⟩
  exact ⟨serve_of_first (doPost_choice hletIn h.fits), v, List.mem_of_find?_eq_some hv, rfl⟩

theorem colon_not_mem_wpa2 : ':' ∉ "WPA2".toList := by decide

def cornerBar : Visible where
  ssid := "Café <\"5G\"> & Bar"
  signal := 70
  security := "WPA2"
  nonempty := by decide
  breakFree := by decide +kernel
  noColon := colon_not_mem_wpa2

theorem serve_shown_cornerBar :
    serve [(submit FormUrl.alwaysSafe ⟨cornerBar.ssid, "café+99%"⟩, true)] =
      some ⟨cornerBar.ssid, "café+99%"⟩ := by
  have hentry : (cornerBar.ssid, label (entry cornerBar) cornerBar.ssid "WPA2") ∈
      (strongest (found [cornerBar])).map shown := by decide +kernel
  have hshown := serve_shown (scanNetworks_terse ⟨0, []⟩ [cornerBar]) (by decide +kernel)
  exact (hshown.2 _ hentry FormUrl.alwaysSafe _
    ⟨by decide +kernel, by decide +kernel, by decide +kernel, by decide +kernel⟩).1 []

end HadcdAgent.WifiProvision
