import HadcdAgent.Lib.PyStr
import HadcdAgent.Lib.Run

/-!
# Mining sessions

The loops of `run_gpu_mining_fill` (`hadcd_workloads/gpu_mining_fill.py`) and
`run_p2pool_fill` (`hadcd_workloads/p2pool_fill.py`) from the launch of the miner on, and
what they record. Times are exact, and one clock is read for all of them.
-/

namespace HadcdAgent.Mining

open Lib

/-! ### The source -/

/-- When the miner exits by itself: ahead of a signal or of the `poll` behind it. -/
inductive Exit where
  | none
  | beforeSignal
  | beforePoll
  deriving DecidableEq

/-- What a pass of the loop meets: the time until the clock is read in the loop test, from
there until it is read for the sleep, and from there until it is read behind a signal; the
other processes on the GPU; the miner. `signalRaises` tells whether a signal to a miner
that has exited raises: it does on Windows, while elsewhere the exited miner takes signals
until `poll` has seen it. -/
structure Pass where
  untilTest : ℚ≥0
  untilSleep : ℚ≥0
  elapsed : ℚ≥0
  otherPids : List ℕ
  exit : Exit
  signalRaises : Bool

inductive Signal where
  | suspend (time : ℚ)
  | resume (time : ℚ)
  deriving DecidableEq

/-- The locals of the loop, with the calls made so far: signals and arguments of `sleep`. -/
structure Session where
  now : ℚ
  paused : Bool
  totalPausedSec : ℚ
  pauseStart : ℚ
  running : Bool
  signals : List Signal
  slept : List ℚ
  deriving DecidableEq

inductive FillError where
  | valueError
  | noSuchProcess
  deriving DecidableEq

/-- How a pass ends: with the next one, behind the loop, or with an exception. -/
inductive Next where
  | again (s : Session)
  | left (s : Session)
  | raised (s : Session) (e : FillError)
  deriving DecidableEq

def Session.suspend (s : Session) : Session :=
  { s with paused := true, pauseStart := s.now, signals := s.signals ++ [.suspend s.now] }

def Session.resume (s : Session) : Session :=
  { s with
    paused := false
    totalPausedSec := s.totalPausedSec + (s.now - s.pauseStart)
    signals := s.signals ++ [.resume s.now] }

/-- `proc.poll() is not None`. -/
def checkExit (s : Session) (p : Pass) : Next :=
  if p.exit = .none then .again s else .left { s with running := false }

/-- A signal is sent when what is seen on the GPU does not fit the miner's state; `seen` is
`none` where the loop does not look. -/
def needsSignal (seen : Option Bool) (paused : Bool) : Bool :=
  match seen with
  | none => false
  | some pressure => pressure != paused

def sendSignal (s : Session) : Session := if s.paused then s.resume else s.suspend

/-- The rest of a pass behind the sleep. -/
def react (seen : Option Bool) (s : Session) (p : Pass) : Next :=
  if needsSignal seen s.paused then
    if p.exit = .beforeSignal ∧ p.signalRaises = true then
      .raised { s with running := false } .noSuchProcess
    else checkExit (sendSignal s) p
  else checkExit s p

def fillPass (watch : Pass → Option Bool) (deadline pollSec : ℚ) (s : Session) (p : Pass) : Next :=
  let test := s.now + p.untilTest
  if test < deadline then
    let reading := test + p.untilSleep
    let amount := min pollSec (deadline - reading)
    let s := { s with now := reading, slept := s.slept ++ [amount] }
    if amount < 0 then .raised s .valueError
    else react (watch p) { s with now := reading + p.elapsed } p
  else .left { s with now := test }

/-- `None` while the loop goes on behind the passes given. -/
def fillLoop (watch : Pass → Option Bool) (deadline pollSec : ℚ) :
    List Pass → Session → Option (Session × Except FillError Unit)
  | [], _ => none
  | p :: passes, s =>
    match fillPass watch deadline pollSec s p with
    | .again s => fillLoop watch deadline pollSec passes s
    | .left s => some (s, .ok ())
    | .raised s e => some (s, .error e)

/-- `len(other_pids) > 0`. -/
def gpuWatch (p : Pass) : Option Bool := some (p.otherPids ≠ [])

def p2poolWatch (_ : Pass) : Option Bool := none

/-- How a miner that runs at the end takes it: it exits just then, or `terminate` stops it,
or it takes `kill`. -/
inductive Ending where
  | exits
  | terminates
  | killed

def stillRunning (running : Bool) (ending : Ending) : Bool :=
  match running, ending with
  | false, _ => false
  | true, .exits => false
  | true, .terminates => false
  | true, .killed => false

/-- The launch and the `finally`: the time until the deadline is set, and the time from
the end of the loop until `end_time` is read. -/
structure Launch where
  startTime : ℚ
  untilDeadline : ℚ≥0
  ending : Ending
  untilEnd : ℚ≥0

def Launch.session (l : Launch) : Session :=
  ⟨l.startTime + l.untilDeadline, false, 0, 0, true, [], []⟩

def Launch.deadline (l : Launch) (durationSec : ℚ) : ℚ := l.session.now + durationSec

def Launch.close (l : Launch) (s : Session) : Session :=
  { s with now := s.now + l.untilEnd, running := stillRunning s.running l.ending }

/-- `round`. -/
def pyRound (q : ℚ) : ℤ :=
  let rest := q - ⌊q⌋
  if rest < 1 / 2 ∨ rest = 1 / 2 ∧ ⌊q⌋ % 2 = 0 then ⌊q⌋ else ⌊q⌋ + 1

/-- A session's line in the CSV; `columns` are the worker, the device, the pool and the
wallet's beginning. -/
structure Row where
  start : ℚ
  stop : ℚ
  durationSec : ℤ
  columns : List Str
  deriving DecidableEq

inductive LogLine where
  | header
  | session (row : Row)
  deriving DecidableEq

def walletPrefix (wallet : Str) : Str :=
  if 8 < wallet.length then wallet.take 8 ++ ['…'] else wallet

/-- `_log_session`. -/
def logSession (log : List LogLine) (start stop : ℚ) (columns : List Str) : List LogLine :=
  (if log = [] then [.header] else log) ++
    [.session ⟨start, stop, pyRound (stop - start), columns⟩]

/-- The handler's settings; `device` is the GPU model or the number of threads. -/
structure Config where
  durationSec : ℚ
  pollSec : ℚ
  pollPositive : 0 < pollSec
  worker : Str
  device : Str
  pool : Str
  wallet : Str

def Config.columns (c : Config) : List Str := [c.worker, c.device, c.pool, walletPrefix c.wallet]

structure GpuResult where
  config : Config
  activeMiningSec : ℤ
  pausedSec : ℤ
  sessionStart : ℚ
  sessionEnd : ℚ

structure P2poolResult where
  config : Config
  actualSec : ℤ
  sessionStart : ℚ
  sessionEnd : ℚ

/-- What a handler leaves: the miner, the log and what it returns or raises. -/
structure Outcome (α : Type) where
  session : Session
  log : List LogLine
  result : Except FillError α

def activeSec (l : Launch) (s : Session) : ℚ := s.now - l.startTime - s.totalPausedSec

def gpuResult (c : Config) (l : Launch) (s : Session) : GpuResult :=
  ⟨c, pyRound (activeSec l s), pyRound s.totalPausedSec, l.startTime, s.now⟩

def p2poolResult (c : Config) (l : Launch) (s : Session) : P2poolResult :=
  ⟨c, pyRound (s.now - l.startTime), l.startTime, s.now⟩

def runFill {α : Type} (watch : Pass → Option Bool) (result : Config → Launch → Session → α)
    (c : Config) (l : Launch) (log : List LogLine) (passes : List Pass) : Option (Outcome α) :=
  (fillLoop watch (l.deadline c.durationSec) c.pollSec passes l.session).map fun r =>
    let s := l.close r.1
    match r.2 with
    | .error e => ⟨s, log, .error e⟩
    | .ok () => ⟨s, logSession log l.startTime s.now c.columns, .ok (result c l s)⟩

def runGpuMiningFill (c : Config) (l : Launch) (log : List LogLine) (passes : List Pass) :
    Option (Outcome GpuResult) := runFill gpuWatch gpuResult c l log passes

def runP2poolFill (c : Config) (l : Launch) (log : List LogLine) (passes : List Pass) :
    Option (Outcome P2poolResult) := runFill p2poolWatch p2poolResult c l log passes

end HadcdAgent.Mining
