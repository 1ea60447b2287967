import HadcdAgent.Lib.JsonDoc

/-!
# The node's Tailscale address

`_find_tailscale_binary` and `check_tailscale_status` (`agent/tailscale.py`). The
machine is what the probe finds on it: the binary on the `PATH`, the files at the usual
places, and how `tailscale status --json` ends.
-/

namespace HadcdAgent.Tailscale

open Lib

/-! ### The probe -/

structure TailscaleStatus where
  installed : Bool
  connected : Bool
  tailscaleIp : Option Str
  hostname : Option Str
  deriving DecidableEq

/-- How the call of the binary ends; `fails` is an `OSError` or a `TimeoutExpired`, and
`stdout` what `json.loads` makes of the output. -/
inductive Probe where
  | fails
  | undecodable
  | exits (returncode : ℤ) (stdout : Loads)

/-- `onPath` is `shutil.which`; `places` are the paths tried on Windows. -/
structure Machine where
  onPath : Option Str
  windows : Bool
  places : List Str
  isFile : Str → Bool
  run : Str → Probe

def commonPlaces : List Str :=
  ["/usr/bin/tailscale", "/usr/local/bin/tailscale", "/opt/homebrew/bin/tailscale"]

def findTailscaleBinary (m : Machine) : Option Str :=
  match m.onPath with
  | some (c :: cs) => some (c :: cs)
  | _ =>
    let places := (if m.windows then m.places.filter (· ≠ []) else []) ++ commonPlaces
    places.find? m.isFile

/-- `x.get(k)` of a value of any type. -/
def getAttr (x : Json) (k : Str) : Except PyExc Json :=
  match x with
  | .obj kvs => .ok (Json.get kvs k)
  | _ => .error .attributeError

/-- What `for ip in ips` goes through. -/
def elements : Json → Except PyExc (List Json)
  | .arr xs => .ok xs
  | .str s => .ok (s.map fun c => .str [c])
  | .obj kvs => .ok (kvs.map fun kv => .str kv.1)
  | _ => .error .typeError

def isCgnat (ip : Str) : Bool := ("100." : Str).isPrefixOf ip

/-- The loop over the addresses, up to its `break`. -/
def firstCgnat : List Json → Except PyExc (Option Str)
  | [] => .ok none
  | .str ip :: rest => if isCgnat ip then .ok (some ip) else firstCgnat rest
  | _ :: _ => .error .attributeError

/-- `ips[0]`, where every element has turned out a text. -/
def firstOf : Json → Except PyExc Str
  | .arr (.str ip :: _) => .ok ip
  | .str (c :: _) => .ok [c]
  | .obj _ => .error .keyError
  | _ => .error .typeError

def tailscaleIpOf (ips : Json) : Except PyExc (Option Str) :=
  if ips.truthy then do
    let found ← elements ips >>= firstCgnat
    match found with
    | some ip => return some ip
    | none => return some (← firstOf ips)
  else return none

/-- `s.rstrip(".") or None`. -/
def undotted (s : Str) : Option Str :=
  if s.rdropWhile (· = '.') = [] then none else some (s.rdropWhile (· = '.'))

def hostnameOf (raw : Json) : Except PyExc (Option Str) :=
  match raw.or (.str []) with
  | .str s => .ok (undotted s)
  | _ => .error .attributeError

def notConnected : TailscaleStatus := ⟨true, false, none, none⟩

def isRunning : Json → Bool
  | .str s => s = "Running".toList
  | _ => false

/-- The status from the parsed output on. -/
def statusOf (data : Json) : Except PyExc TailscaleStatus := do
  let state ← getAttr data "BackendState"
  if isRunning state then
    let self ← getAttr data "Self"
    let ips ← getAttr (self.or (.obj [])) "TailscaleIPs"
    let ip ← tailscaleIpOf ips
    let raw ← getAttr (self.or (.obj [])) "DNSName"
    let hostname ← hostnameOf raw
    return ⟨true, true, ip, hostname⟩
  else return notConnected

def probed : Probe → Except PyExc TailscaleStatus
  | .fails => .ok notConnected
  | .undecodable => .error .unicodeDecodeError
  | .exits returncode stdout =>
    if returncode ≠ 0 then .ok notConnected
    else
      match stdout.result with
      | .ok data => statusOf data
      | .error e => if e.isValueError then .ok notConnected else .error e

def checkTailscaleStatus (m : Machine) : Except PyExc TailscaleStatus :=
  match findTailscaleBinary m with
  | none => .ok ⟨false, false, none, none⟩
  | some binary => probed (m.run binary)

/-! ### Which address it is -/

/-- The text is one of those that going through `ips` yields. -/
def Among (ip : Str) (ips : Json) : Prop := ∃ xs, elements ips = .ok xs ∧ .str ip ∈ xs

/-- The probe of the machine finds `ips` under `Self.TailscaleIPs`. -/
def Finds (m : Machine) (ips : Json) : Prop :=
  ∃ binary kvs self, findTailscaleBinary m = some binary ∧
    m.run binary = .exits 0 (.value (.obj kvs)) ∧ Json.get kvs "Self" = .obj self ∧
    Json.get self "TailscaleIPs" = ips

theorem firstCgnat_eq_some {xs : List Json} {ip : Str} (h : firstCgnat xs = .ok (some ip)) :
    .str ip ∈ xs ∧ isCgnat ip = true := by
  induction xs with
  | nil => cases h
  | cons x xs ih =>
    cases x with
    | str s =>
      rw [firstCgnat] at h
      split_ifs at h with hs
      · cases h
        exact ⟨List.mem_cons_self .., hs⟩
      · obtain ⟨hmem, hip⟩ := ih h
        exact ⟨List.mem_cons_of_mem _ hmem, hip⟩
    | _ => cases h

theorem firstCgnat_eq_none {xs : List Json} (h : firstCgnat xs = .ok none) :
    ∀ x ∈ xs, ∃ ip, x = .str ip ∧ isCgnat ip = false := by
  induction xs with
  | nil => exact fun x hx => absurd hx List.not_mem_nil
  | cons x xs ih =>
    cases x with
    | str s =>
      rw [firstCgnat] at h
      split_ifs at h with hs
      · cases h
      · intro y hy
        rcases List.mem_cons.mp hy with rfl | hy
        · exact ⟨s, rfl, Bool.eq_false_of_not_eq_true hs⟩
        · exact ih h y hy
    | _ => cases h

theorem firstOf_among {ips : Json} {ip : Str} (h : firstOf ips = .ok ip) : Among ip ips := by
  unfold firstOf at h
  split at h
  · cases h
    exact ⟨_, rfl, List.mem_cons_self ..⟩
  · cases h
    exact ⟨_, rfl, List.mem_cons_self ..⟩
  · cases h
  · cases h

/-- The address is one of those listed, and in `100.` when one of them is. -/
theorem tailscaleIpOf_eq_some {ips : Json} {ip : Str} (h : tailscaleIpOf ips = .ok (some ip)) :
    Among ip ips ∧ ∀ other, Among other ips → isCgnat other = true → isCgnat ip = true := by
  unfold tailscaleIpOf at h
  split_ifs at h with htrue
  · obtain ⟨found, hfound, h⟩ := bind_eq_ok h
    obtain ⟨xs, hxs, hfirst⟩ := bind_eq_ok hfound
    cases found with
    | some found =>
      cases h
      obtain ⟨hmem, hip⟩ := firstCgnat_eq_some hfirst
      exact ⟨⟨xs, hxs, hmem⟩, fun _ _ _ => hip⟩
    | none =>
      obtain ⟨first, hof, h⟩ := bind_eq_ok h
      cases h
      refine ⟨firstOf_among hof, fun other ⟨ys, hys, hmem⟩ hother => ?_⟩
      obtain rfl := Except.ok.inj (hxs.symm.trans hys)
      obtain ⟨s, hs, hnot⟩ := firstCgnat_eq_none hfirst _ hmem
      cases hs
      exact absurd (hnot.symm.trans hother) Bool.false_ne_true
  · cases h

theorem getAttr_eq_ok {x v : Json} {k : Str} (h : getAttr x k = .ok v) :
    ∃ kvs, x = .obj kvs ∧ v = Json.get kvs k := by
  cases x with
  | obj kvs =>
    cases h
    exact ⟨kvs, rfl, rfl⟩
  | _ => cases h

theorem statusOf_eq_ok {data : Json} {st : TailscaleStatus} {ip : Str} (h : statusOf data = .ok st)
    (hip : st.tailscaleIp = some ip) :
    st.connected = true ∧ ∃ kvs self, data = .obj kvs ∧ Json.get kvs "Self" = .obj self ∧
      tailscaleIpOf (Json.get self "TailscaleIPs") = .ok (some ip) := by
  obtain ⟨state, hstate, h⟩ := bind_eq_ok h
  split_ifs at h with hrunning
  · obtain ⟨self, hself, h⟩ := bind_eq_ok h
    obtain ⟨ips, hips, h⟩ := bind_eq_ok h
    obtain ⟨found, hfound, h⟩ := bind_eq_ok h
    obtain ⟨raw, -, h⟩ := bind_eq_ok h
    obtain ⟨hostname, -, h⟩ := bind_eq_ok h
    cases h
    obtain rfl := hip
    obtain ⟨kvs, rfl, rfl⟩ := getAttr_eq_ok hself
    refine ⟨rfl, kvs, ?_⟩
    cases htrue : (Json.get kvs "Self").truthy with
    | false =>
      rw [Json.or_of_not_truthy htrue] at hips
      cases hips
      cases hfound
    | true =>
      rw [Json.or_of_truthy htrue] at hips
      obtain ⟨self, hself', rfl⟩ := getAttr_eq_ok hips
      exact ⟨self, rfl, hself', hfound⟩
  · cases h
    cases hip

/-- Whatever the probe meets: an address that it returns is one it was shown. -/
theorem checkTailscaleStatus_eq_ok {m : Machine} {st : TailscaleStatus} {ip : Str}
    (h : checkTailscaleStatus m = .ok st) (hip : st.tailscaleIp = some ip) :
    st.connected = true ∧ ∃ ips, Finds m ips ∧ Among ip ips ∧
      ∀ other, Among other ips → isCgnat other = true → isCgnat ip = true := by
  unfold checkTailscaleStatus at h
  split at h
  · cases h
    cases hip
  · rename_i binary hbinary
    unfold probed at h
    split at h
    · cases h
      cases hip
    · cases h
    · rename_i code stdout hrun
      split_ifs at h with hcode
      · cases h
        cases hip
      · cases hres : stdout.result with
        | error e =>
          rw [hres] at h
          dsimp only at h
          split_ifs at h
          · cases h
            cases hip
        | ok data =>
          rw [hres] at h
          obtain ⟨hconn, kvs, self, rfl, hself, hfound⟩ := statusOf_eq_ok h hip
          have hval : stdout = .value (.obj kvs) := by
            cases stdout with
            | value data =>
              cases hres
              rfl
            | _ => cases hres
          obtain rfl : code = 0 := not_not.mp hcode
          exact ⟨hconn, _, ⟨binary, kvs, self, hbinary, hval ▸ hrun, hself, rfl⟩,
            tailscaleIpOf_eq_some hfound⟩

/-! ### What the daemon prints -/

theorem firstCgnat_map (ips : List Str) :
    firstCgnat (ips.map Json.str) = .ok (ips.find? isCgnat) := by
  induction ips with
  | nil => rfl
  | cons ip ips ih =>
    rw [List.map_cons, firstCgnat, List.find?_cons]
    cases isCgnat ip with
    | true => rfl
    | false => exact ih

theorem tailscaleIpOf_map (ips : List Str) :
    tailscaleIpOf (.arr (ips.map Json.str)) = .ok ((ips.find? isCgnat).or ips.head?) := by
  cases ips with
  | nil => rfl
  | cons ip ips =>
    have hfirst : (elements (.arr ((ip :: ips).map Json.str)) >>= firstCgnat) =
        .ok ((ip :: ips).find? isCgnat) := firstCgnat_map (ip :: ips)
    have htrue : (Json.arr ((ip :: ips).map Json.str)).truthy = true :=
      Json.truthy_arr.mpr (List.cons_ne_nil _ _)
    rw [tailscaleIpOf, if_pos htrue, hfirst, ok_bind]
    cases (ip :: ips).find? isCgnat with
    | some found => rfl
    | none => rfl

theorem hostnameOf_str (name : Str) : hostnameOf (.str name) = .ok (undotted name) := by
  cases name with
  | nil => rfl
  | cons c cs => rfl

/-- What a running daemon reports: texts for its addresses and its name. -/
structure Reports (kvs : List (Str × Json)) (ips : List Str) (name : Str) : Prop where
  running : Json.get kvs "BackendState" = .str "Running".toList
  node : ∃ self, Json.get kvs "Self" = .obj self ∧
    Json.get self "TailscaleIPs" = .arr (ips.map Json.str) ∧ Json.get self "DNSName" = .str name

theorem statusOf_of_reports {kvs : List (Str × Json)} {ips : List Str} {name : Str}
    (h : Reports kvs ips name) :
    statusOf (.obj kvs) = .ok ⟨true, true, (ips.find? isCgnat).or ips.head?, undotted name⟩ := by
  obtain ⟨self, hself, hips, hname⟩ := h.node
  have hor : (Json.obj self).or (.obj []) = .obj self := by
    cases self <;> rfl
  have hrunning : isRunning (Json.get kvs "BackendState") = true := by
    rw [h.running]
    decide
  simp only [statusOf, getAttr, ok_bind, hrunning, if_true, hself, hor, hips, hname,
    tailscaleIpOf_map, hostnameOf_str]
  rfl

/-- However a running daemon lays its report out, and whatever else it says: the probe
returns its first address in `100.`, or else its first, and its name without the dots. -/
theorem checkTailscaleStatus_of_reports {fl : FloatText} {lay : JsonText.Layout} {m : Machine}
    {binary : Str} {kvs : List (Str × Json)} {ips : List Str} {name : Str}
    (hbinary : findTailscaleBinary m = some binary) (hsound : JsonText.Sound fl (.obj kvs))
    (hrun : m.run binary = .exits 0 (JsonText.loads fl (JsonText.dumps fl lay 0 (.obj kvs))))
    (hreports : Reports kvs ips name) :
    checkTailscaleStatus m =
      .ok ⟨true, true, (ips.find? isCgnat).or ips.head?, undotted name⟩ := by
  rw [checkTailscaleStatus, hbinary]
  dsimp only
  rw [hrun, JsonText.loads_dumps hsound]
  exact statusOf_of_reports hreports

def noFloats : FloatText := ⟨fun _ => [], fun _ => .nan⟩

def dualReport : List (Str × Json) :=
  [("BackendState".toList, .str "Running".toList),
    ("Self".toList, .obj
      [("DNSName".toList, .str "attic.ts.net.".toList),
        ("TailscaleIPs".toList, .arr (["fd7a::7".toList, "100.64.0.7".toList].map Json.str))])]

def dualStack : Machine where
  onPath := none
  windows := false
  places := []
  isFile p := p = "/usr/local/bin/tailscale".toList
  run _ := .exits 0 (JsonText.loads noFloats
    (JsonText.dumps noFloats JsonText.spaced 0 (.obj dualReport)))

theorem checkTailscaleStatus_of_reports_dualStack : checkTailscaleStatus dualStack =
    .ok ⟨true, true, some "100.64.0.7".toList, some "attic.ts.net".toList⟩ := by
  have hsound : JsonText.Sound noFloats (.obj dualReport) :=
    ⟨by decide, trivial, ⟨by decide, trivial, ⟨trivial, trivial, trivial⟩, trivial⟩, trivial⟩
  have hreports : Reports dualReport ["fd7a::7".toList, "100.64.0.7".toList] "attic.ts.net.".toList :=
    ⟨rfl, _, rfl, rfl, rfl⟩
  have hbinary : findTailscaleBinary dualStack = some "/usr/local/bin/tailscale".toList := by
    decide +kernel
  exact checkTailscaleStatus_of_reports hbinary hsound rfl hreports

end HadcdAgent.Tailscale
