import Mathlib
import HadcdAgent.Vast.Override

/-!
# The payout log

`_log_session` (`agent/vast_provider.py`) and the rows that `VastProvider.update`
appends with it. A row is accounted for from the outside, by the CLI calls that
were seen since the row before.
-/

namespace HadcdAgent.Vast

open Lib

/-! ### The source -/

/-- The lines of the CSV file as lists of cells, `none` while there is no file. -/
abbrev PayoutFile := Option (List (List Str))

/-- The machine id and Python's renderings of dates and floats: `isoformat`,
`total_seconds() / 3600`, the float products and `f"{x:.nf}"`. -/
structure CsvFormat where
  machineId : Str
  isoformat : ℤ → Str
  hours : ℤ → PyFloat
  mul : PyFloat → PyFloat → PyFloat
  lessPlatformCut : PyFloat → PyFloat
  fixed : ℕ → PyFloat → Str

def csvHeader : List Str :=
  ["listed_at", "unlisted_at", "duration_hrs", "machine_id", "listing_price_dph",
    "estimated_gross_usd", "estimated_net_usd"]

def csvRow (f : CsvFormat) (s : Session) : List Str :=
  let durationHrs := f.hours (s.unlistedAt - s.listedAt)
  let estimates := match s.listingPriceDph with
    | none => [[], [], []]
    | some p =>
      let g := f.mul p durationHrs
      [f.fixed 4 p, f.fixed 6 g, f.fixed 6 (f.lessPlatformCut g)]
  [f.isoformat s.listedAt, f.isoformat s.unlistedAt, f.fixed 4 durationHrs, f.machineId] ++
    estimates

/-- How the append ends: an `OSError` is logged, and leaves the file in some state. -/
inductive Append where
  | done
  | osError (left : PayoutFile)

def appendRow (f : CsvFormat) (file : PayoutFile) (s : Session) : PayoutFile :=
  match file with
  | none => some [csvHeader, csvRow f s]
  | some lines => some (lines ++ [csvRow f s])

def logSession (f : CsvFormat) (file : PayoutFile) (s : Session) : Append → PayoutFile
  | .done => appendRow f file s
  | .osError left => left

/-! ### The accounts of a run -/

/-- What was seen of a tick: its CLI calls with their results, and its time. -/
structure Seen where
  calls : List CliCall
  stamp : ℤ

/-- `rows` are the sessions given to `_log_session`, `since` the ticks after the
last of them, `clock` the last reading of the clock. -/
structure Accounts where
  provider : VastProvider
  file : PayoutFile
  rows : List Session
  since : List Seen
  clock : ℤ

inductive Event where
  | setOverride (override : Override)
  | update (tick : Tick) (append : Append)

def openAccounts (preListMicros : ℤ) (file : PayoutFile) (clock : ℤ) : Accounts :=
  ⟨initial true preListMicros, file, [], [], clock⟩

def afterTick (f : CsvFormat) (w : Accounts) (tick : Tick) (append : Append) : Accounts :=
  let r := update w.provider tick
  match r.closed with
  | none => ⟨r.provider, w.file, w.rows, w.since ++ [⟨r.calls, tick.stamp⟩], tick.stamp⟩
  | some s => ⟨r.provider, logSession f w.file s append, w.rows ++ [s], [], tick.stamp⟩

def account (f : CsvFormat) (w : Accounts) : Event → Accounts
  | .setOverride override => { w with provider := setOverride w.provider override }
  | .update tick append => afterTick f w tick append

/-! ### What a row has to say -/

def firstListed (since : List Seen) : Option Seen :=
  since.find? fun s => decide (CliCall.listMachine (some true) ∈ s.calls)

/-- `file` with more lines: a new file has the header before them. -/
def withLines (file : PayoutFile) : List (List Str) → PayoutFile
  | [] => file
  | line :: lines => some (file.getD [csvHeader] ++ line :: lines)

/-- What stands in a row under a heading. -/
def cell (heading : Str) (row : List Str) : Option Str := lookup heading (csvHeader.zip row)

/-- The columns of the row for a session. -/
structure RowOf (f : CsvFormat) (s : Session) (row : List Str) : Prop where
  width : row.length = csvHeader.length
  listedAt : cell "listed_at" row = some (f.isoformat s.listedAt)
  unlistedAt : cell "unlisted_at" row = some (f.isoformat s.unlistedAt)
  price : cell "listing_price_dph" row = some ((s.listingPriceDph.map (f.fixed 4)).getD [])

/-- The lines that `file` has got are the rows of the sessions, in their order. -/
def Written (f : CsvFormat) (file : PayoutFile) (w : Accounts) : Prop :=
  ∃ lines, w.file = withLines file lines ∧ List.Forall₂ (RowOf f) w.rows lines

def Event.logged : Event → Bool
  | .setOverride _ | .update _ .done => true
  | .update _ (.osError _) => false

/-- The tick sees no rentals left in UNLISTING, on a machine not wanted listed. -/
def SeesDrained (p : VastProvider) (tick : Tick) : Prop :=
  p.state = .unlisting ∧ Wants p tick false ∧
    CliCall.activeRentalCount (some 0) ∈ (update p tick).calls

structure Accounted (f : CsvFormat) (w : Accounts) (tick : Tick) (append : Append) : Prop where
  drained : SeesDrained w.provider tick → ∃ first price row,
    firstListed w.since = some first ∧ CliCall.getListingPrice (some price) ∈ first.calls ∧
    RowOf f ⟨first.stamp, tick.stamp, price⟩ row ∧
    (afterTick f w tick append).rows = w.rows ++ [⟨first.stamp, tick.stamp, price⟩] ∧
    (append = .done → (afterTick f w tick append).file = withLines w.file [row])
  otherwise : ¬ SeesDrained w.provider tick →
    (afterTick f w tick append).rows = w.rows ∧ (afterTick f w tick append).file = w.file

structure InOrder (w : Accounts) : Prop where
  started : w.provider.state = .listed ∨ w.provider.state = .unlisting →
    w.provider.listedAt.isSome = true
  forward : ∀ r ∈ w.rows, r.listedAt ≤ r.unlistedAt
  ordered : w.rows.Pairwise fun r s => r.unlistedAt ≤ s.listedAt
  disjoint : w.rows.Pairwise fun r s =>
    Disjoint (Set.Ico r.listedAt r.unlistedAt) (Set.Ico s.listedAt s.unlistedAt)

/-- The CLI methods return and the clock does not go back. -/
def Regular (w : Accounts) : Event → Prop
  | .setOverride _ => True
  | .update tick _ => Returns tick ∧ w.clock ≤ tick.now ∧ tick.now ≤ tick.stamp

instance (w : Accounts) : ∀ e, Decidable (Regular w e)
  | .setOverride _ => isTrue trivial
  | .update tick _ =>
    inferInstanceAs (Decidable (Returns tick ∧ w.clock ≤ tick.now ∧ tick.now ≤ tick.stamp))

def AccountedAt (f : CsvFormat) (w : Accounts) : Event → Prop
  | .setOverride _ => True
  | .update tick append => Accounted f w tick append

/-! ### The lines of the file -/

theorem withLines_append (file : PayoutFile) (lines more : List (List Str)) :
    withLines (withLines file lines) more = withLines file (lines ++ more) := by
  cases lines with
  | nil => rfl
  | cons line lines =>
    cases more with
    | nil => rw [List.append_nil, withLines]
    | cons next more =>
      rw [List.cons_append, withLines, withLines, withLines, Option.getD_some,
        List.append_assoc, List.cons_append]

theorem appendRow_eq_withLines (f : CsvFormat) (file : PayoutFile) (s : Session) :
    appendRow f file s = withLines file [csvRow f s] := by
  cases file with
  | none => rfl
  | some lines => rfl

theorem rowOf_csvRow (f : CsvFormat) (s : Session) : RowOf f s (csvRow f s) := by
  obtain ⟨listedAt, unlistedAt, price⟩ := s
  cases price with
  | none => exact ⟨rfl, rfl, rfl, rfl⟩
  | some p => exact ⟨rfl, rfl, rfl, rfl⟩

/-! ### What a tick does to the recorded start -/

def Running (p : VastProvider) : Prop := p.state = .listed ∨ p.state = .unlisting

/-- Either nothing is recorded, or a start is, or a session is closed. -/
inductive Recorded (p : VastProvider) (tick : Tick) (r : TickResult) : Prop where
  | kept (hclosed : r.closed = none) (hat : r.provider.listedAt = p.listedAt)
      (hprice : r.provider.listingPriceDph = p.listingPriceDph)
      (hlist : CliCall.listMachine (some true) ∈ r.calls → p.listedAt ≠ none)
      (hrun : Running r.provider → Running p ∨ p.listedAt ≠ none)
      (hcount : CliCall.activeRentalCount (some 0) ∉ r.calls)
  | started (price : Option PyFloat) (hclosed : r.closed = none) (hnone : p.listedAt = none)
      (hat : r.provider.listedAt = some tick.stamp) (hprice : r.provider.listingPriceDph = price)
      (hlist : CliCall.listMachine (some true) ∈ r.calls)
      (hcall : CliCall.getListingPrice (some price) ∈ r.calls)
      (hcount : CliCall.activeRentalCount (some 0) ∉ r.calls)
  | drained (hclosed : r.closed =
        p.listedAt.map fun listedAt => ⟨listedAt, tick.stamp, p.listingPriceDph⟩)
      (hat : r.provider.listedAt = none) (hrun : ¬ Running r.provider)
      (hcount : CliCall.activeRentalCount (some 0) ∈ r.calls)

theorem doList_refused {p : VastProvider} {tick : Tick} (hl : tick.listMachine = some false) :
    doList p tick = ⟨{ p with state := .unlisted }, [.listMachine (some false)], none, false⟩ := by
  simp [doList, listed, hl]

theorem doList_again {p : VastProvider} {tick : Tick} (hl : tick.listMachine = some true)
    {t : ℤ} (hat : p.listedAt = some t) :
    doList p tick = ⟨{ p with state := .listed }, [.listMachine (some true)], none, false⟩ := by
  simp [doList, listed, hl, hat]

theorem doList_first {p : VastProvider} {tick : Tick} (hl : tick.listMachine = some true)
    (hat : p.listedAt = none) {price : Option PyFloat} (hp : tick.getListingPrice = some price) :
    doList p tick =
      ⟨{ p with state := .listed, listedAt := some tick.stamp, listingPriceDph := price },
        [.listMachine (some true), .getListingPrice (some price)], none, false⟩ := by
  simp [doList, listed, hl, hat, hp]

theorem recorded_doList {p : VastProvider} {tick : Tick} (h : Returns tick) :
    Recorded p tick (doList p tick) := by
  cases hl : tick.listMachine with
  | none => exact absurd hl h.list
  | some r =>
    cases r with
    | false =>
      rw [doList_refused hl]
      exact .kept rfl rfl rfl (by simp) (by simp [Running]) (by simp)
    | true =>
      cases hat : p.listedAt with
      | some t =>
        rw [doList_again hl hat]
        exact .kept rfl rfl rfl (by simp [hat]) (by simp [hat]) (by simp)
      | none =>
        cases hp : tick.getListingPrice with
        | none => exact absurd hp h.price
        | some price =>
          rw [doList_first hl hat hp]
          exact .started price rfl hat rfl rfl (by simp) (by simp) (by simp)

theorem recorded_doUnlist {p : VastProvider} (hp : p.state = .listed) (tick : Tick) :
    Recorded p tick (doUnlist p tick) := by
  have hcalls := calls_doUnlist p tick
  have hclosed := closed_doUnlist p tick
  refine .kept hclosed ?_ ?_ ?_ (fun _ => Or.inl (Or.inl hp)) ?_
  · unfold doUnlist
    cases tick.unlistMachine with
    | none => rfl
    | some r => cases r <;> rfl
  · unfold doUnlist
    cases tick.unlistMachine with
    | none => rfl
    | some r => cases r <;> rfl
  · simp [hcalls]
  · simp [hcalls]

theorem recorded_drain {p : VastProvider} (hp : p.state = .unlisting) (tick : Tick) :
    Recorded p tick (drain p tick) := by
  have hcalls := calls_drain p tick
  cases hc : tick.activeRentalCount with
  | none =>
    have hd : drain p tick = ⟨p, [.activeRentalCount none], none, true⟩ := by simp [drain, hc]
    rw [hd]
    exact .kept rfl rfl rfl (by simp) (fun _ => Or.inl (Or.inr hp)) (by simp)
  | some count =>
    by_cases h0 : count = 0
    · refine .drained ?_ ?_ ?_ ?_
      · simp [drain, hc, h0]
      · simp [drain, hc, h0]
      · simp [drain, hc, h0, Running]
      · simp [hcalls, hc, h0]
    · have hd : drain p tick = ⟨p, [.activeRentalCount (some count)], none, false⟩ := by
        simp [drain, hc, h0]
      rw [hd]
      exact .kept rfl rfl rfl (by simp) (fun _ => Or.inl (Or.inr hp)) (by simp [Ne.symm h0])

theorem recorded_update {p : VastProvider} (hs : p.state ≠ .listing) {tick : Tick}
    (h : Returns tick) : Recorded p tick (update p tick) := by
  obtain ⟨-, hunlist, hdrain⟩ := wants_of_action hs tick
  unfold update
  cases ha : action p tick.schedule tick.now with
  | idle raised => exact .kept rfl rfl rfl (by simp) (fun hrun => Or.inl hrun) (by simp)
  | list => exact recorded_doList h
  | unlist => exact recorded_doUnlist (hunlist ha).1 tick
  | drain => exact recorded_drain (hdrain ha).1 tick

/-! ### The invariant -/

theorem firstListed_append (since : List Seen) (s : Seen) :
    firstListed (since ++ [s]) =
      (firstListed since).or (if CliCall.listMachine (some true) ∈ s.calls then some s else none) := by
  unfold firstListed
  rw [List.find?_append, List.find?_cons]
  by_cases h : CliCall.listMachine (some true) ∈ s.calls <;> simp [h]

/-- The provider's record of the session is the first listing since the last row,
and the rows lie before it in order. -/
structure Booked (w : Accounts) : Prop where
  notListing : w.provider.state ≠ .listing
  recorded : w.provider.listedAt = (firstListed w.since).map Seen.stamp
  priced : ∀ first, firstListed w.since = some first →
    CliCall.getListingPrice (some w.provider.listingPriceDph) ∈ first.calls
  running : Running w.provider → w.provider.listedAt ≠ none
  started : ∀ t, w.provider.listedAt = some t → t ≤ w.clock ∧ ∀ r ∈ w.rows, r.unlistedAt ≤ t
  rows : ∀ r ∈ w.rows, r.listedAt ≤ r.unlistedAt ∧ r.unlistedAt ≤ w.clock
  ordered : w.rows.Pairwise fun r s => r.unlistedAt ≤ s.listedAt

theorem booked_openAccounts (preListMicros : ℤ) (file : PayoutFile) (clock : ℤ) :
    Booked (openAccounts preListMicros file clock) where
  notListing := by simp [openAccounts, initial]
  recorded := rfl
  priced := by simp [openAccounts, firstListed]
  running := by simp [openAccounts, initial, Running]
  started := by simp [openAccounts, initial]
  rows := by simp [openAccounts]
  ordered := List.Pairwise.nil

section Tick

variable (f : CsvFormat) {w : Accounts} {tick : Tick}

theorem afterTick_none (append : Append) (h : (update w.provider tick).closed = none) :
    afterTick f w tick append = ⟨(update w.provider tick).provider, w.file, w.rows,
      w.since ++ [⟨(update w.provider tick).calls, tick.stamp⟩], tick.stamp⟩ := by
  simp [afterTick, h]

theorem afterTick_some (append : Append) {s : Session}
    (h : (update w.provider tick).closed = some s) :
    afterTick f w tick append = ⟨(update w.provider tick).provider, logSession f w.file s append,
      w.rows ++ [s], [], tick.stamp⟩ := by
  simp [afterTick, h]

theorem Booked.closed (hw : Booked w) (h : Returns tick) (hd : SeesDrained w.provider tick) :
    ∃ first price, firstListed w.since = some first ∧
      CliCall.getListingPrice (some price) ∈ first.calls ∧
      w.provider.listedAt = some first.stamp ∧
      (update w.provider tick).closed = some ⟨first.stamp, tick.stamp, price⟩ := by
  obtain ⟨hs, -, hcalls⟩ := hd
  have hsome : w.provider.listedAt ≠ none := hw.running (Or.inr hs)
  cases hfirst : firstListed w.since with
  | none =>
    rw [hw.recorded, hfirst] at hsome
    exact absurd rfl hsome
  | some first =>
    have hat : w.provider.listedAt = some first.stamp := by
      rw [hw.recorded, hfirst]
      rfl
    refine ⟨first, w.provider.listingPriceDph, rfl, hw.priced first hfirst, hat, ?_⟩
    cases recorded_update hw.notListing h with
    | kept _ _ _ _ _ hcount => exact absurd hcalls hcount
    | started _ _ _ _ _ _ _ hcount => exact absurd hcalls hcount
    | drained hclosed _ _ _ => rw [hclosed, hat]; rfl

theorem Booked.seesDrained (hw : Booked w)
    (hcount : CliCall.activeRentalCount (some 0) ∈ (update w.provider tick).calls) :
    SeesDrained w.provider tick := by
  have ha := (action_of_call w.provider tick).2.2 _ hcount
  have hdrain := (wants_of_action hw.notListing tick).2.2 ha
  exact ⟨hdrain.1, hdrain.2, hcount⟩

theorem Booked.closed_none (hw : Booked w) (h : Returns tick) (hd : ¬ SeesDrained w.provider tick) :
    (update w.provider tick).closed = none := by
  cases recorded_update hw.notListing h with
  | kept hclosed => exact hclosed
  | started _ hclosed => exact hclosed
  | drained _ _ _ hcount => exact absurd (hw.seesDrained hcount) hd

theorem Booked.accounted (hw : Booked w) (h : Returns tick) (append : Append) :
    Accounted f w tick append := by
  constructor
  · intro hd
    obtain ⟨first, price, hfirst, hprice, -, hclosed⟩ := hw.closed h hd
    refine ⟨first, price, _, hfirst, hprice, rowOf_csvRow f _, ?_, fun ha => ?_⟩
    · rw [afterTick_some f append hclosed]
    · rw [afterTick_some f append hclosed, ha]
      exact appendRow_eq_withLines f w.file _
  · intro hd
    rw [afterTick_none f append (hw.closed_none h hd)]
    exact ⟨rfl, rfl⟩

/-- A listing seen now comes after one already recorded. -/
theorem Booked.firstListed_kept (hw : Booked w) (seen : Seen)
    (hlist : CliCall.listMachine (some true) ∈ seen.calls → w.provider.listedAt ≠ none) :
    firstListed (w.since ++ [seen]) = firstListed w.since := by
  rw [firstListed_append]
  cases hfirst : firstListed w.since with
  | some first => rfl
  | none =>
    have hnone : w.provider.listedAt = none := by
      rw [hw.recorded, hfirst]
      rfl
    simp only [Option.none_or]
    exact if_neg fun hc => hlist hc hnone

theorem Booked.firstListed_started (hw : Booked w) (seen : Seen)
    (hnone : w.provider.listedAt = none)
    (hlist : CliCall.listMachine (some true) ∈ seen.calls) :
    firstListed (w.since ++ [seen]) = some seen := by
  have hbefore : firstListed w.since = none := by
    have hrec := hw.recorded
    rw [hnone] at hrec
    exact Option.map_eq_none_iff.mp hrec.symm
  rw [firstListed_append, hbefore, Option.none_or, if_pos hlist]

theorem Booked.rows_before (hw : Booked w) {now : ℤ} (hclock : w.clock ≤ now) :
    ∀ r ∈ w.rows, r.listedAt ≤ r.unlistedAt ∧ r.unlistedAt ≤ now := by
  intro r hr
  have hrow := hw.rows r hr
  omega

theorem Booked.afterTick (hw : Booked w) (h : Returns tick) (hclock : w.clock ≤ tick.stamp)
    (append : Append) : Booked (afterTick f w tick append) := by
  have hns := state_update_ne_listing h.list hw.notListing
  have hrows := hw.rows_before hclock
  cases recorded_update hw.notListing h with
  | kept hclosed hat hprice hlist hrun _ =>
    rw [afterTick_none f append hclosed]
    have hfirst := hw.firstListed_kept ⟨(update w.provider tick).calls, tick.stamp⟩ hlist
    refine ⟨hns, ?_, ?_, ?_, ?_, hrows, hw.ordered⟩
    · rw [hat, hfirst, hw.recorded]
    · simp only [hfirst, hprice]
      exact hw.priced
    · intro hr
      rw [hat]
      exact (hrun hr).elim hw.running id
    · intro t ht
      rw [hat] at ht
      have hpast := hw.started t ht
      exact ⟨by simp only; omega, hpast.2⟩
  | started price hclosed hnone hat hprice hlist hcall _ =>
    rw [afterTick_none f append hclosed]
    have hfirst :=
      hw.firstListed_started ⟨(update w.provider tick).calls, tick.stamp⟩ hnone hlist
    refine ⟨hns, ?_, ?_, ?_, ?_, hrows, hw.ordered⟩
    · rw [hat, hfirst]
      rfl
    · simp only [hfirst, hprice]
      rintro first hf
      cases hf
      exact hcall
    · intro _
      rw [hat]
      exact Option.some_ne_none _
    · intro t ht
      rw [hat] at ht
      cases ht
      exact ⟨le_rfl, fun r hr => (hrows r hr).2⟩
  | drained _ hat hrun hcount =>
    obtain ⟨first, price, -, -, hl, hclosed⟩ := hw.closed h (hw.seesDrained hcount)
    have hstart := hw.started first.stamp hl
    rw [afterTick_some f append hclosed]
    refine ⟨hns, ?_, ?_, fun hr => absurd hr hrun, ?_, ?_, ?_⟩
    · rw [hat]
      rfl
    · simp [firstListed]
    · simp [hat]
    · intro r hr
      rcases List.mem_append.mp hr with hr | hr
      · exact hrows r hr
      · cases List.mem_singleton.mp hr
        exact ⟨by simp only; omega, le_rfl⟩
    · refine List.pairwise_append.mpr ⟨hw.ordered, List.pairwise_singleton _ _, ?_⟩
      intro r hr s hs
      cases List.mem_singleton.mp hs
      exact hstart.2 r hr

theorem Written.afterTick {file : PayoutFile} (hw : Written f file w) (tick : Tick) :
    Written f file (afterTick f w tick .done) := by
  obtain ⟨lines, hfile, hrows⟩ := hw
  cases hclosed : (update w.provider tick).closed with
  | none =>
    rw [afterTick_none f .done hclosed]
    exact ⟨lines, hfile, hrows⟩
  | some s =>
    rw [afterTick_some f .done hclosed]
    refine ⟨lines ++ [csvRow f s], ?_, List.rel_append hrows (.cons (rowOf_csvRow f s) .nil)⟩
    rw [← withLines_append, ← hfile]
    exact appendRow_eq_withLines f w.file s

end Tick

theorem written_of_logged (f : CsvFormat) {preListMicros clock : ℤ} {file : PayoutFile}
    {events : List Event} (hlogged : ∀ e ∈ events, e.logged = true) {w : Accounts}
    (hw : Run.exec (Run.total (account f)) (openAccounts preListMicros file clock) events =
      some w) : Written f file w := by
  have hkeep : ∀ w e w', Written f file w → e.logged = true →
      Run.total (account f) w e = some w' → Written f file w' := by
    intro w e w' hi he hstep
    cases hstep
    cases e with
    | setOverride override => exact hi
    | update tick append =>
      cases append with
      | done => exact hi.afterTick f tick
      | osError left => cases he
  exact Run.exec_invariant hkeep ⟨[], rfl, .nil⟩
    (Run.along_of_forall _ fun e he _ => hlogged e he) hw

theorem Booked.inOrder {w : Accounts} (hw : Booked w) : InOrder w := by
  refine ⟨fun hr => Option.isSome_iff_ne_none.mpr (hw.running hr), fun r hr => (hw.rows r hr).1,
    hw.ordered, hw.ordered.imp fun hrs => ?_⟩
  rw [Set.disjoint_left]
  rintro t ⟨-, hr⟩ ⟨hs, -⟩
  omega

/-- Every tick of a run appends the row that the calls before it ask for and no
other; the rows are in order, they are what the file has got unless an append has failed,
and a running session has its start recorded. -/
theorem payoutLog_accounted (f : CsvFormat) (preListMicros : ℤ) (file : PayoutFile) (clock : ℤ)
    (events : List Event)
    (hregular : Run.Along (Run.total (account f)) Regular
      (openAccounts preListMicros file clock) events) :
    Run.Along (Run.total (account f)) (AccountedAt f) (openAccounts preListMicros file clock) events ∧
    ∀ w, Run.exec (Run.total (account f)) (openAccounts preListMicros file clock) events = some w →
      InOrder w ∧ ((∀ e ∈ events, e.logged = true) → Written f file w) := by
  have hkeep : ∀ w e w', Booked w → Regular w e → Run.total (account f) w e = some w' →
      Booked w' := by
    intro w e w' hw hr hstep
    cases hstep
    cases e with
    | setOverride override =>
      exact ⟨hw.notListing, hw.recorded, hw.priced, hw.running, hw.started, hw.rows, hw.ordered⟩
    | update tick append => exact hw.afterTick f hr.1 (hr.2.1.trans hr.2.2) append
  have hprop : ∀ w e, Booked w → Regular w e → AccountedAt f w e := by
    intro w e hw hr
    cases e with
    | setOverride override => trivial
    | update tick append => exact hw.accounted f hr.1 append
  have h0 := booked_openAccounts preListMicros file clock
  exact ⟨Run.along_of_invariant hkeep hprop h0 hregular,
    fun w hw => ⟨(Run.exec_invariant hkeep h0 hregular hw).inOrder,
      fun hlogged => written_of_logged f hlogged hw⟩⟩

/-- The renderings of the two instants and of the one hour of a session. -/
def hourFormat : CsvFormat where
  machineId := "4711"
  isoformat t := if t = 0 then "1970-01-01T00:00:00+00:00" else "1970-01-01T01:00:00+00:00"
  hours _ := .fin 1
  mul x _ := x
  lessPlatformCut x := x
  fixed _ _ := "1.0000"

/-- Listed for an hour with a failed unlist in between, then drained. -/
def hourEvents : List Event :=
  [.update (quietTick true 0) .done,
    .update { quietTick false 0 with unlistMachine := some false } .done,
    .update (quietTick false 0) .done,
    .update { quietTick false 0 with stamp := 3600000000 } .done]

theorem payoutLog_accounted_hour :
    Run.Along (Run.total (account hourFormat)) (AccountedAt hourFormat)
      (openAccounts 600000000 none 0) hourEvents ∧
    ∀ w, Run.exec (Run.total (account hourFormat)) (openAccounts 600000000 none 0) hourEvents =
      some w →
      InOrder w ∧ ((∀ e ∈ hourEvents, e.logged = true) → Written hourFormat none w) :=
  payoutLog_accounted hourFormat 600000000 none 0 hourEvents (by decide)

end HadcdAgent.Vast
