import HadcdAgent.Lib.Csv
import HadcdAgent.Lib.JsonText
import HadcdAgent.Mining.Session

/-!
# The session logs

`_log_session` of `gpu_mining_fill.py`, `p2pool_fill.py` and `synthetic_heat_fill.py` (in
`hadcd_workloads`), called by tasks that run at the same time on one CSV file. The file is
opened for appending, and what a call writes is taken to reach it in one piece as it is
closed: no write fails part-way, and the rows fit its buffer.
-/

namespace HadcdAgent.SessionLog

open Lib Lib.Csv Mining

/-! ### A session's row -/

/-- A reading of `datetime.now(timezone.utc)`. -/
structure UtcTime where
  year : ℕ
  month : ℕ
  day : ℕ
  hour : ℕ
  minute : ℕ
  second : ℕ
  microsecond : ℕ
  deriving DecidableEq

/-- `f"{n:0{width}d}"`. -/
def pad (width n : ℕ) : Str :=
  List.replicate (width - (Nat.toDigits 10 n).length) '0' ++ Nat.toDigits 10 n

def UtcTime.isoformat (t : UtcTime) : Str :=
  pad 4 t.year ++ '-' :: pad 2 t.month ++ '-' :: pad 2 t.day ++ 'T' :: pad 2 t.hour ++
    ':' :: pad 2 t.minute ++ ':' :: pad 2 t.second ++
    (if t.microsecond = 0 then [] else '.' :: pad 6 t.microsecond) ++ "+00:00"

def isLeap (year : ℕ) : Bool := year % 4 = 0 && (year % 100 ≠ 0 || year % 400 = 0)

def daysBeforeYear (year : ℕ) : ℕ :=
  let y := year - 1
  y * 365 + y / 4 - y / 100 + y / 400

def daysBeforeMonth (year month : ℕ) : ℕ :=
  [0, 31, 59, 90, 120, 151, 181, 212, 243, 273, 304, 334].getD (month - 1) 0 +
    (if 2 < month ∧ isLeap year then 1 else 0)

def UtcTime.microseconds (t : UtcTime) : ℕ :=
  let days := daysBeforeYear t.year + daysBeforeMonth t.year t.month + t.day
  (((days * 24 + t.hour) * 60 + t.minute) * 60 + t.second) * 10 ^ 6 + t.microsecond

/-- `(end - start).total_seconds()`, exactly. -/
def totalSeconds (start stop : UtcTime) : ℚ :=
  ((stop.microseconds : ℚ) - start.microseconds) / 10 ^ 6

/-- The handler, with what it alone logs. -/
inductive Fill where
  | gpuMining (worker gpu pool wallet : Str)
  | p2pool (worker : Str) (threads : ℕ) (poolUrl wallet : Str)
  | syntheticHeat (threads : ℕ) (gpuActive : Bool)
  deriving DecidableEq

/-- `_CSV_HEADER` of the handler. -/
def Fill.csvHeader : Fill → List Str
  | .gpuMining .. =>
    ["start_utc", "end_utc", "duration_sec", "worker_name", "gpu_model", "pool_host",
      "wallet_prefix"]
  | .p2pool .. =>
    ["start_utc", "end_utc", "duration_sec", "worker_name", "threads", "pool_url",
      "wallet_prefix"]
  | .syntheticHeat .. => ["start_utc", "end_utc", "duration_sec", "threads", "gpu_burn_active"]

def Fill.columns : Fill → List Str
  | .gpuMining worker gpu pool wallet => [worker, gpu, pool, walletPrefix wallet]
  | .p2pool worker threads poolUrl wallet =>
    [worker, JsonText.reprInt threads, poolUrl, walletPrefix wallet]
  | .syntheticHeat threads gpuActive =>
    [JsonText.reprInt threads, if gpuActive then "True" else "False"]

/-- The arguments of `_log_session`. -/
structure Call where
  fill : Fill
  start : UtcTime
  stop : UtcTime
  deriving DecidableEq

def Call.row (c : Call) : List Str :=
  [c.start.isoformat, c.stop.isoformat,
    JsonText.reprInt (pyRound (totalSeconds c.start c.stop))] ++ c.fill.columns

def Call.rows (c : Call) (writeHeader : Bool) : List (List Str) :=
  (if writeHeader then [c.fill.csvHeader] else []) ++ [c.row]

def Call.text (c : Call) (writeHeader : Bool) : Str := (c.rows writeHeader).flatMap writeRow

/-! ### Calls at the same time -/

/-- Where a call is: `path.exists()` was true and `path.stat()` comes next, the file is
opened next, or it has been opened. -/
inductive Phase where
  | sizing
  | decided (writeHeader : Bool)
  | opened (writeHeader : Bool)
  deriving DecidableEq

/-- `file` is `none` while there is no file; `closed` are the calls that are over, in the order
in which they closed it, and whether they wrote a header. -/
structure Log where
  file : Option Str
  calls : ℕ → Option (Call × Phase)
  closed : List (Call × Bool)

def Log.start : Log := ⟨none, fun _ => none, []⟩

inductive Event where
  | check (i : ℕ) (call : Call)
  | stat (i : ℕ)
  | openFile (i : ℕ)
  | close (i : ℕ)
  | raises (i : ℕ)
  | killed

def Log.set (l : Log) (i : ℕ) (call : Option (Call × Phase)) : Log :=
  { l with calls := Function.update l.calls i call }

/-- A call may raise before it has opened the file. What is written before the process is
killed never left its buffer. -/
def step (l : Log) : Event → Option Log
  | .check i call =>
    if l.calls i ≠ none then none
    else some (l.set i (some (call, if l.file = none then .decided true else .sizing)))
  | .stat i =>
    match l.calls i, l.file with
    | some (call, .sizing), some text => some (l.set i (some (call, .decided text.isEmpty)))
    | _, _ => none
  | .openFile i =>
    match l.calls i with
    | some (call, .decided header) =>
      some { l.set i (some (call, .opened header)) with file := some (l.file.getD []) }
    | _ => none
  | .close i =>
    match l.calls i with
    | some (call, .opened header) =>
      some { l.set i none with
        file := some (l.file.getD [] ++ call.text header)
        closed := l.closed ++ [(call, header)] }
    | _ => none
  | .raises i =>
    match l.calls i with
    | some (_, .sizing) | some (_, .decided _) => some (l.set i none)
    | _ => none
  | .killed => some { l with calls := fun _ => none }

/-- The rows that `csv.reader` finds in the file. -/
def Log.read (l : Log) : List (List Str) := Csv.read (l.file.getD [])

/-- A row is a session's unless it starts as the headers do. -/
def isSession (row : List Str) : Bool := row.head? ≠ some "start_utc"

/-- A call starts while no other is under way. -/
def Alone (l : Log) : Event → Prop
  | .check _ _ => ∀ j, l.calls j = none
  | _ => True

/-! ### The rows -/

theorem digits_pad (width n : ℕ) : ∀ c ∈ pad width n, c.isDigit = true := by
  intro c hc
  rcases List.mem_append.mp hc with hzero | hdigit
  · rw [List.eq_of_mem_replicate hzero]
    decide
  · exact PyStr.isDigit_of_mem_toDigits hdigit

theorem pad_ne_nil (width n : ℕ) : pad width n ≠ [] := by
  simp [pad, Nat.toDigits_ne_nil]

/-- A time's text starts with a digit. -/
theorem isoformat_ne (t : UtcTime) : t.isoformat ≠ "start_utc" := by
  obtain ⟨c, digits, hpad⟩ := List.exists_cons_of_ne_nil (pad_ne_nil 4 t.year)
  have hdigit : c.isDigit = true := digits_pad 4 t.year c (by rw [hpad]; exact List.mem_cons_self)
  intro h
  rw [UtcTime.isoformat, hpad] at h
  have hc : c = 's' := (List.cons.inj h).1
  rw [hc] at hdigit
  exact absurd hdigit (by decide)

@[simp] theorem isSession_row (c : Call) : isSession c.row = true := by
  have := isoformat_ne c.start
  simpa [isSession, Call.row] using this

@[simp] theorem isSession_csvHeader (fill : Fill) : isSession fill.csvHeader = false := by
  cases fill <;> rfl

theorem rows_ne_nil (c : Call) (header : Bool) : ∀ row ∈ c.rows header, row ≠ [] := by
  intro row hrow hnil
  subst hnil
  cases header <;> cases hfill : c.fill <;> simp [Call.rows, Call.row, Fill.csvHeader, hfill] at hrow

theorem filter_rows (c : Call) (header : Bool) : (c.rows header).filter isSession = [c.row] := by
  cases header <;> simp [Call.rows]

theorem text_ne_nil (c : Call) (header : Bool) : c.text header ≠ [] := by
  simp [Call.text, Call.rows, writeRow]

/-! ### What every interleaving keeps -/

/-- What the call has made of the file's size. -/
def Phase.header : Phase → Option Bool
  | .sizing => none
  | .decided header | .opened header => some header

/-- `P` holds of the calls that are under way. -/
def Log.Each (P : Phase → Prop) (l : Log) : Prop :=
  ∀ i call phase, l.calls i = some (call, phase) → P phase

theorem Log.Each.set {P : Phase → Prop} {l : Log} (h : l.Each P) (i : ℕ)
    {entry : Option (Call × Phase)} (hentry : ∀ call phase, entry = some (call, phase) → P phase) :
    (l.set i entry).Each P := by
  intro j call phase hj
  simp only [Log.set, Function.update_apply] at hj
  split at hj
  · exact hentry call phase hj
  · exact h j call phase hj

/-- The file holds what the closed calls wrote, and as long as there is none of them every
call is going to write a header. -/
structure Fine (l : Log) : Prop where
  text : l.file.getD [] = l.closed.flatMap fun c => c.1.text c.2
  first : ∀ c ∈ l.closed.head?, c.2 = true
  headers : l.closed = [] → l.Each fun phase => phase.header ≠ some false

theorem fine_start : Fine Log.start where
  text := rfl
  first := nofun
  headers := fun _ _ _ _ h => nomatch h

theorem Fine.set {l : Log} (h : Fine l) (i : ℕ) {entry : Option (Call × Phase)}
    (hentry : l.closed = [] → ∀ call phase, entry = some (call, phase) →
      phase.header ≠ some false) : Fine (l.set i entry) where
  text := h.text
  first := h.first
  headers := fun hclosed => (h.headers hclosed).set i (hentry hclosed)

theorem Fine.file_nil {l : Log} (h : Fine l) (hclosed : l.closed = []) : l.file.getD [] = [] := by
  rw [h.text, hclosed, List.flatMap_nil]

theorem Fine.file_ne_nil {l : Log} (h : Fine l) (hclosed : l.closed ≠ []) : l.file.getD [] ≠ [] := by
  obtain ⟨c, closed, hcons⟩ := List.exists_cons_of_ne_nil hclosed
  rw [h.text, hcons, List.flatMap_cons]
  exact List.append_ne_nil_of_left_ne_nil (text_ne_nil c.1 c.2) _

theorem Fine.close {l : Log} (h : Fine l) {i : ℕ} {call : Call} {header : Bool}
    (hcall : l.calls i = some (call, .opened header)) :
    Fine { l.set i none with
      file := some (l.file.getD [] ++ call.text header)
      closed := l.closed ++ [(call, header)] } where
  text := by simp [h.text]
  first := by
    intro c hc
    by_cases hclosed : l.closed = []
    · have hheader : header ≠ false := fun hfalse =>
        h.headers hclosed i call _ hcall (by rw [hfalse]; rfl)
      have hcc : (call, header) = c := by simpa [hclosed] using hc
      rw [← hcc]
      simpa using hheader
    · rw [List.head?_append_of_ne_nil _ hclosed] at hc
      exact h.first c hc
  headers := fun hclosed => absurd hclosed (by simp)

theorem fine_step (l : Log) (event : Event) (m : Log) (h : Fine l) (hstep : step l event = some m) :
    Fine m := by
  cases event with
  | check i call =>
    simp only [step] at hstep
    split at hstep
    · cases hstep
    · cases hstep
      refine h.set i fun _ _ phase hentry => ?_
      cases hentry
      split <;> simp [Phase.header]
  | stat i =>
    simp only [step] at hstep
    split at hstep
    · rename_i call text hcall hfile
      cases hstep
      refine h.set i fun hclosed _ phase hentry => ?_
      cases hentry
      have htext : text = [] := by simpa [hfile] using h.file_nil hclosed
      simp [Phase.header, htext]
    · cases hstep
  | openFile i =>
    simp only [step] at hstep
    split at hstep
    · rename_i call header hcall
      cases hstep
      have hset := @Fine.set l h i (some (call, .opened header)) fun hclosed _ phase hentry => by
        cases hentry
        exact h.headers hclosed i call (.decided header) hcall
      exact ⟨h.text, hset.first, hset.headers⟩
    · cases hstep
  | close i =>
    simp only [step] at hstep
    split at hstep
    · rename_i call header hcall
      cases hstep
      exact h.close hcall
    · cases hstep
  | raises i =>
    simp only [step] at hstep
    split at hstep
    · cases hstep
      exact h.set i nofun
    · cases hstep
      exact h.set i nofun
    · cases hstep
  | killed =>
    cases hstep
    exact ⟨h.text, h.first, fun _ _ _ _ hnone => nomatch hnone⟩

/-! ### Calls one after the other -/

/-- A call that is under way has the log to itself: once there are rows, it writes no header. -/
structure Lone (l : Log) : Prop where
  one : ∀ i j, l.calls i ≠ none → l.calls j ≠ none → i = j
  later : l.closed ≠ [] → l.Each fun phase => phase.header ≠ some true
  rest : ∀ c ∈ l.closed.tail, c.2 = false

theorem lone_start : Lone Log.start where
  one := fun _ _ h => absurd rfl h
  later := fun h => absurd rfl h
  rest := nofun

theorem calls_set_ne_none {l : Log} {i j : ℕ} {entry : Option (Call × Phase)}
    (hi : l.calls i ≠ none) (h : (l.set i entry).calls j ≠ none) : l.calls j ≠ none := by
  simp only [Log.set, Function.update_apply] at h
  split at h
  · rename_i hj
    rwa [hj]
  · exact h

theorem Lone.set {l : Log} (h : Lone l) {i : ℕ} (hi : l.calls i ≠ none)
    {entry : Option (Call × Phase)}
    (hentry : l.closed ≠ [] → ∀ call phase, entry = some (call, phase) →
      phase.header ≠ some true) : Lone (l.set i entry) where
  one := fun j k hj hk => h.one j k (calls_set_ne_none hi hj) (calls_set_ne_none hi hk)
  later := fun hclosed => (h.later hclosed).set i (hentry hclosed)
  rest := h.rest

theorem Lone.check {l : Log} (h : Lone l) (hfine : Fine l) (hnone : ∀ j, l.calls j = none)
    {i : ℕ} (call : Call) :
    Lone (l.set i (some (call, if l.file = none then .decided true else .sizing))) where
  one := by
    have honly : ∀ j, (l.set i (some (call,
        if l.file = none then .decided true else .sizing))).calls j ≠ none → j = i := by
      intro j hj
      by_contra hij
      exact hj (by simp [Log.set, hij, hnone j])
    intro j k hj hk
    rw [honly j hj, honly k hk]
  later := by
    intro hclosed
    have hfile : l.file ≠ none := by
      intro hfile
      exact hfine.file_ne_nil hclosed (by simp [hfile])
    refine (h.later hclosed).set i fun _ phase hentry => ?_
    cases hentry
    simp [hfile, Phase.header]
  rest := h.rest

theorem Lone.close {l : Log} (h : Lone l) {i : ℕ} {call : Call} {header : Bool}
    (hcall : l.calls i = some (call, .opened header)) :
    Lone { l.set i none with
      file := some (l.file.getD [] ++ call.text header)
      closed := l.closed ++ [(call, header)] } := by
  have hi : l.calls i ≠ none := by simp [hcall]
  refine ⟨fun j k hj hk => h.one j k (calls_set_ne_none hi hj) (calls_set_ne_none hi hk), ?_, ?_⟩
  · intro _ j other phase hj
    have hji : i = j := h.one i j hi (calls_set_ne_none hi (by rw [hj]; simp))
    subst hji
    simp [Log.set] at hj
  · intro c hc
    by_cases hclosed : l.closed = []
    · simp [hclosed] at hc
    · rw [List.tail_append_of_ne_nil hclosed] at hc
      obtain hc | hc := List.mem_append.mp hc
      · exact h.rest c hc
      · have hheader : header ≠ true := fun htrue =>
          h.later hclosed i call (.opened header) hcall (by rw [htrue]; rfl)
        rw [List.mem_singleton.mp hc]
        simpa using hheader

theorem lone_step (l : Log) (event : Event) (m : Log) (h : Fine l ∧ Lone l)
    (halone : Alone l event) (hstep : step l event = some m) : Fine m ∧ Lone m := by
  refine ⟨fine_step l event m h.1 hstep, ?_⟩
  obtain ⟨hfine, hlone⟩ := h
  cases event with
  | check i call =>
    simp only [step] at hstep
    split at hstep
    · cases hstep
    · cases hstep
      exact hlone.check hfine halone call
  | stat i =>
    simp only [step] at hstep
    split at hstep
    · rename_i call text hcall hfile
      cases hstep
      refine hlone.set (by simp [hcall]) fun hclosed _ phase hentry => ?_
      cases hentry
      have htext : text ≠ [] := by simpa [hfile] using hfine.file_ne_nil hclosed
      simp [Phase.header, htext]
    · cases hstep
  | openFile i =>
    simp only [step] at hstep
    split at hstep
    · rename_i call header hcall
      cases hstep
      have hset := @Lone.set l hlone i (by simp [hcall]) (some (call, .opened header))
        fun hclosed _ phase hentry => by
          cases hentry
          exact hlone.later hclosed i call (.decided header) hcall
      exact ⟨hset.one, hset.later, hset.rest⟩
    · cases hstep
  | close i =>
    simp only [step] at hstep
    split at hstep
    · rename_i call header hcall
      cases hstep
      exact hlone.close hcall
    · cases hstep
  | raises i =>
    simp only [step] at hstep
    split at hstep
    · rename_i hcall
      cases hstep
      exact hlone.set (by simp [hcall]) nofun
    · rename_i hcall
      cases hstep
      exact hlone.set (by simp [hcall]) nofun
    · cases hstep
  | killed =>
    cases hstep
    exact ⟨fun _ _ hnone => absurd rfl hnone, fun _ _ _ _ hnone => (nomatch hnone), hlone.rest⟩

/-! ### What is read back -/

theorem Fine.read {l : Log} (h : Fine l) : l.read = l.closed.flatMap fun c => c.1.rows c.2 := by
  have htext : l.file.getD [] = (l.closed.flatMap fun c => c.1.rows c.2).flatMap writeRow := by
    rw [h.text, List.flatMap_assoc]
    rfl
  rw [Log.read, htext]
  refine read_writeRows fun row hrow => ?_
  obtain ⟨c, -, hc⟩ := List.mem_flatMap.mp hrow
  exact rows_ne_nil c.1 c.2 row hc

theorem filter_flatMap_rows (closed : List (Call × Bool)) :
    (closed.flatMap fun c => c.1.rows c.2).filter isSession = closed.map fun c => c.1.row := by
  induction closed with
  | nil => rfl
  | cons c closed ih =>
      rw [List.flatMap_cons, List.filter_append, filter_rows, ih, List.map_cons,
        List.singleton_append]

theorem flatMap_rows_of_false {closed : List (Call × Bool)} (h : ∀ c ∈ closed, c.2 = false) :
    (closed.flatMap fun c => c.1.rows c.2) = closed.map fun c => c.1.row := by
  induction closed with
  | nil => rfl
  | cons c closed ih =>
      have hc : c.2 = false := h c List.mem_cons_self
      rw [List.flatMap_cons, ih fun d hd => h d (List.mem_cons_of_mem c hd), List.map_cons, hc]
      rfl

/-- The header that the first row is. -/
def Log.header (l : Log) : Option (List Str) := l.closed.head?.map fun c => c.1.fill.csvHeader

/-- **The sessions of all calls that closed the file are read back, each of them once and in
the order of closing, below a header. Where no two calls overlap, it is the only one.** -/
theorem read_of_exec {events : List Event} {l : Log}
    (hrun : Run.exec step Log.start events = some l) :
    l.read.filter isSession = l.closed.map (fun c => c.1.row) ∧ l.read.head? = l.header ∧
      (Run.Along step Alone Log.start events →
        l.read = l.header.toList ++ l.closed.map fun c => c.1.row) := by
  have hfine : Fine l := Run.exec_preserves fine_step fine_start hrun
  refine ⟨by rw [hfine.read, filter_flatMap_rows], ?_, ?_⟩
  · rw [hfine.read, Log.header]
    cases hclosed : l.closed with
    | nil => rfl
    | cons c closed =>
        have hheader : c.2 = true := hfine.first c (by rw [hclosed]; rfl)
        simp [Call.rows, hheader]
  · intro halone
    have hboth : Fine l ∧ Lone l :=
      Run.exec_invariant lone_step ⟨fine_start, lone_start⟩ halone hrun
    rw [hfine.read, Log.header]
    cases hclosed : l.closed with
    | nil => rfl
    | cons c closed =>
        have hheader : c.2 = true := hfine.first c (by rw [hclosed]; rfl)
        have hrest := hboth.2.rest
        rw [hclosed, List.tail_cons] at hrest
        rw [List.flatMap_cons, flatMap_rows_of_false hrest]
        simp [Call.rows, hheader]

def at20 (day minute : ℕ) : UtcTime := ⟨2026, 1, day, 20, minute, 0, 0⟩

def minedCall : Call := ⟨.gpuMining "node,1" "RTX" "pool" "NHbXXXXXXXX", at20 1 0, at20 1 30⟩

def heatCall : Call := ⟨.syntheticHeat 7 true, at20 2 0, at20 2 15⟩

/-- The first call is lost with the process, and leaves an empty file behind. -/
def twoEvenings : List Event :=
  [.check 0 heatCall, .openFile 0, .killed, .check 1 minedCall, .stat 1, .openFile 1, .close 1,
    .check 2 heatCall, .stat 2, .openFile 2, .close 2]

theorem read_of_exec_twoEvenings : ∃ l, Run.exec step Log.start twoEvenings = some l ∧
    l.read = minedCall.fill.csvHeader :: [minedCall.row, heatCall.row] := by
  obtain ⟨l, hrun⟩ : ∃ l, Run.exec step Log.start twoEvenings = some l :=
    Option.isSome_iff_exists.mp (by decide +kernel)
  have hclosed : l.closed = [(minedCall, true), (heatCall, false)] := by
    have : (Run.exec step Log.start twoEvenings).map Log.closed
      = some [(minedCall, true), (heatCall, false)] := by decide +kernel
    rw [hrun] at this
    exact Option.some.inj this
  have halone : Run.Along step Alone Log.start twoEvenings := by
    simp [twoEvenings, Run.Along, step, Alone, Log.start, Log.set]
  refine ⟨l, hrun, ?_⟩
  rw [(read_of_exec hrun).2.2 halone, Log.header, hclosed]
  rfl

end HadcdAgent.SessionLog
