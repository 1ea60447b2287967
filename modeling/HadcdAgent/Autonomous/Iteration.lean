import HadcdAgent.Autonomous.Miner

/-!
# What an iteration of the mining loop begins

`AutonomousMiner._loop` (`agent/autonomous_mode.py`) between a stop request and its
end, and in the iterations in which heat is demanded.
-/

namespace HadcdAgent.MiningLoop

open Lib

/-! ### What a step begins -/

/-- A mining chunk, a `turn_on` call or a synthetic burn is under way. -/
def working : Point → Bool
  | .mining | .turningOn | .burning => true
  | .created | .reading | .turningOff | .idle | .holding | .exiting | .exited => false

def Begins (w w' : Loop) : Prop := w'.point ≠ w.point ∧ working w'.point = true

/-- The answer that makes the loop begin something: a read with demand, or a chunk
that both handlers skip while the heater is not held on. -/
def starts (m : AutonomousMiner) (w : Loop) : Event → Bool
  | .read measuredKw => w.point = .reading && demanded measuredKw
  | .chunkDone gpu cpu =>
    w.point = .mining && (skipped (runShim gpu) && skipped (runShim cpu)) &&
      !(haConfigured m && w.heaterOn)
  | _ => false

theorem working_leave (w : Loop) : working (leave w).point = false := by
  cases h : w.heaterOn <;> simp [leave, h, working]

theorem working_again (w : Loop) : working (again w).point = false := by
  rw [again]
  split_ifs
  · exact working_leave w
  · rfl

theorem working_answer {w w' : Loop} {acked : Bool} (hw : answer w acked = some w') :
    working w'.point = false := by
  cases hp : w.point <;> simp only [answer, hp, Option.some.injEq, reduceCtorEq] at hw <;>
    subst hw <;> rfl

theorem working_cancel {w w' : Loop} {acked : Bool} (hw : cancel w acked = some w') :
    working w'.point = false := by
  cases hp : w.point <;> simp only [cancel, hp, Option.some.injEq, reduceCtorEq] at hw <;>
    subst hw <;> first | exact working_leave _ | rfl

theorem working_afterRead (w : Loop) (measuredKw : Option PyFloat) :
    working (afterRead w measuredKw).point = demanded measuredKw := by
  cases hd : demanded measuredKw <;> cases hh : w.heaterOn <;> simp [afterRead, hd, hh, working]

theorem working_afterChunk (m : AutonomousMiner) (w : Loop) (gpu cpu : ChunkResult) :
    working (afterChunk m w gpu cpu).point =
      ((skipped gpu && skipped cpu) && !(haConfigured m && w.heaterOn)) := by
  rw [afterChunk]
  cases hs : (skipped gpu && skipped cpu) with
  | false => exact working_again w
  | true =>
    cases hm : haConfigured m with
    | false => rfl
    | true => cases hh : w.heaterOn <;> rfl

theorem begins_iff {m : AutonomousMiner} {w w' : Loop} {e : Event} (hw : step m w e = some w') :
    Begins w w' ↔ starts m w e = true := by
  cases e with
  | read measuredKw =>
    obtain ⟨hp, ⟨⟩⟩ := Option.ite_none_right_eq_some.mp hw
    have hne : working (afterRead w measuredKw).point = true →
        (afterRead w measuredKw).point ≠ w.point := by
      intro h he
      rw [he, hp] at h
      cases h
    rw [Begins, and_iff_right_of_imp hne, working_afterRead, starts]
    simp [hp]
  | chunkDone gpu cpu =>
    obtain ⟨hp, ⟨⟩⟩ := Option.ite_none_right_eq_some.mp hw
    have hne : (afterChunk m w (runShim gpu) (runShim cpu)).point ≠ w.point := by
      rw [hp, afterChunk, again, leave]
      split_ifs <;> simp
    rw [Begins, and_iff_right hne, working_afterChunk, starts]
    simp [hp]
  | stop =>
    obtain ⟨-, ⟨⟩⟩ := Option.ite_none_left_eq_some.mp hw
    exact ⟨fun h => absurd rfl h.1, fun h => absurd h Bool.false_ne_true⟩
  | resumed =>
    obtain ⟨-, ⟨⟩⟩ := Option.ite_none_right_eq_some.mp hw
    exact iff_of_false (fun h => by simp [Begins, working_again] at h) Bool.false_ne_true
  | timeout =>
    obtain ⟨-, ⟨⟩⟩ := Option.ite_none_right_eq_some.mp hw
    exact iff_of_false (fun h => by simp [Begins, working_again] at h) Bool.false_ne_true
  | stopSeen =>
    obtain ⟨-, ⟨⟩⟩ := Option.ite_none_right_eq_some.mp hw
    exact iff_of_false (fun h => by simp [Begins, working_leave] at h) Bool.false_ne_true
  | burned =>
    obtain ⟨-, ⟨⟩⟩ := Option.ite_none_right_eq_some.mp hw
    exact iff_of_false (fun h => by simp [Begins, working_again] at h) Bool.false_ne_true
  | answered acked =>
    exact iff_of_false (fun h => by simp [Begins, working_answer hw] at h) Bool.false_ne_true
  | cancel acked =>
    exact iff_of_false (fun h => by simp [Begins, working_cancel hw] at h) Bool.false_ne_true

theorem step_of_starts {m : AutonomousMiner} {w : Loop} {e : Event} (h : starts m w e = true) :
    ∃ w', step m w e = some w' := by
  cases e with
  | read measuredKw =>
    have hp : w.point = .reading := by simp [starts] at h; exact h.1
    exact ⟨_, if_pos hp⟩
  | chunkDone gpu cpu =>
    have hp : w.point = .mining := by simp [starts] at h; exact h.1.1
    exact ⟨_, if_pos hp⟩
  | _ => cases h

/-! ### After a stop request -/

def BeginsNothing (w : Loop) (_ : Event) (w' : Loop) : Prop :=
  w.stopEvent = true → ¬ Begins w w'

/-- Once the stop event is set, the read that was in flight tells of no demand, and
the chunk under way is not one that both handlers skip with the heater off. -/
def NothingDue (m : AutonomousMiner) (w : Loop) (e : Event) : Prop :=
  w.stopEvent = true → starts m w e = false

/-- Along every run nothing is begun after the stop request exactly when no answer
that comes after it makes the loop begin something. -/
theorem beginsNothing_iff_nothingDue (m : AutonomousMiner) (events : List Event) :
    Run.AlongSteps (step m) BeginsNothing initial events ↔
      Run.Along (step m) (NothingDue m) initial events := by
  refine Run.along_iff fun w e => ?_
  constructor
  · intro h hstop
    by_contra hstarts
    rw [Bool.not_eq_false] at hstarts
    obtain ⟨w', hw⟩ := step_of_starts hstarts
    exact h w' hw hstop ((begins_iff hw).mpr hstarts)
  · intro h w' hw hstop hbegins
    rw [begins_iff hw, h hstop] at hbegins
    cases hbegins

/-- The stop request comes while the thermostat is being read, and heat is demanded. -/
theorem not_beginsNothing_stopDuringRead :
    ¬ Run.AlongSteps (step ⟨[], [], []⟩) BeginsNothing initial
      ([.resumed, .stop] ++ [.read (some (.fin 2))]) := by
  intro h
  have hlast := h.at rfl _ rfl
  exact hlast rfl ⟨by decide, rfl⟩

/-- How many chunks, burns and `turn_on` calls may still begin after the stop request. -/
def allowance : Point → ℕ
  | .reading => 2
  | .mining => 1
  | _ => 0

def begun (m : AutonomousMiner) : Loop → List Event → ℕ
  | _, [] => 0
  | w, e :: es =>
    match step m w e with
    | none => 0
    | some w' => (starts m w e).toNat + begun m w' es

theorem allowance_leave (w : Loop) : allowance (leave w).point = 0 := by
  cases h : w.heaterOn <;> simp [leave, h, allowance]

theorem allowance_again {w : Loop} (hs : w.stopEvent = true) : allowance (again w).point = 0 := by
  rw [again, if_pos hs]
  exact allowance_leave w

theorem stopEvent_step {m : AutonomousMiner} {w w' : Loop} {e : Event}
    (hs : w.stopEvent = true) (hw : step m w e = some w') : w'.stopEvent = true := by
  have hagain : (again w).stopEvent = true := by
    rw [again, if_pos hs]
    exact hs
  have hheater : ∀ service acked, (heaterService w service acked).stopEvent = true := by
    intro service acked
    cases acked <;> exact hs
  cases e with
  | answered acked =>
    cases hp : w.point <;> simp only [step, answer, hp, Option.some.injEq, reduceCtorEq] at hw <;>
      subst hw <;> exact hheater _ acked
  | cancel acked =>
    cases hp : w.point <;> simp only [step, cancel, hp, Option.some.injEq, reduceCtorEq] at hw <;>
      subst hw <;> first | exact hs | exact hheater _ acked
  | stop =>
    obtain ⟨-, ⟨⟩⟩ := Option.ite_none_left_eq_some.mp hw
    rfl
  | read measuredKw =>
    obtain ⟨-, ⟨⟩⟩ := Option.ite_none_right_eq_some.mp hw
    exact hs
  | chunkDone gpu cpu =>
    obtain ⟨-, ⟨⟩⟩ := Option.ite_none_right_eq_some.mp hw
    rw [afterChunk]
    split_ifs
    · exact hs
    · exact hs
    · exact hs
    · exact hagain
  | stopSeen =>
    obtain ⟨-, ⟨⟩⟩ := Option.ite_none_right_eq_some.mp hw
    exact hs
  | resumed | timeout | burned =>
    obtain ⟨-, ⟨⟩⟩ := Option.ite_none_right_eq_some.mp hw
    exact hagain

theorem allowance_step {m : AutonomousMiner} {w w' : Loop} {e : Event}
    (hs : w.stopEvent = true) (hw : step m w e = some w') :
    (starts m w e).toNat + allowance w'.point ≤ allowance w.point := by
  cases e with
  | read measuredKw =>
    obtain ⟨hp, ⟨⟩⟩ := Option.ite_none_right_eq_some.mp hw
    cases hd : demanded measuredKw <;> cases hh : w.heaterOn <;>
      simp [starts, afterRead, allowance, hp, hd, hh]
  | chunkDone gpu cpu =>
    obtain ⟨hp, ⟨⟩⟩ := Option.ite_none_right_eq_some.mp hw
    have hrest : allowance (afterChunk m w (runShim gpu) (runShim cpu)).point = 0 := by
      rw [afterChunk]
      split_ifs
      · rfl
      · rfl
      · rfl
      · exact allowance_again hs
    rw [hrest, hp]
    exact Bool.toNat_le _
  | stop =>
    obtain ⟨-, ⟨⟩⟩ := Option.ite_none_left_eq_some.mp hw
    exact (Nat.zero_add _).le
  | resumed | timeout | burned =>
    obtain ⟨-, ⟨⟩⟩ := Option.ite_none_right_eq_some.mp hw
    rw [allowance_again hs]
    exact Nat.zero_le _
  | stopSeen =>
    obtain ⟨-, ⟨⟩⟩ := Option.ite_none_right_eq_some.mp hw
    rw [allowance_leave]
    exact Nat.zero_le _
  | answered acked =>
    cases hp : w.point <;> simp only [step, answer, hp, Option.some.injEq, reduceCtorEq] at hw <;>
      subst hw <;> exact Nat.zero_le _
  | cancel acked =>
    cases hp : w.point <;> simp only [step, cancel, hp, Option.some.injEq, reduceCtorEq] at hw <;>
      subst hw <;> first | exact Nat.zero_le _ | (rw [allowance_leave]; exact Nat.zero_le _)

/-- A stop request is overtaken by a chunk and by what follows it, and by no more. -/
theorem begun_le {m : AutonomousMiner} {w : Loop} (hs : w.stopEvent = true)
    (events : List Event) : begun m w events ≤ allowance w.point := by
  induction events generalizing w with
  | nil => exact Nat.zero_le _
  | cons e es ih =>
    rw [begun]
    cases hw : step m w e with
    | none => exact Nat.zero_le _
    | some w' =>
      have hrest := ih (stopEvent_step hs hw)
      have hstep := allowance_step hs hw
      dsimp only
      omega

/-! ### While heat is demanded -/

def ranSession : Handler → Bool
  | .returns skipped => !skipped
  | .raises | .exits => false

/-- What takes time in an iteration: a session, a wait that runs out, a burn. -/
def takesTime : Event → Bool
  | .chunkDone gpu cpu => ranSession gpu || ranSession cpu
  | .timeout | .burned => true
  | _ => false

/-- After a chunk without a session the heater is engaged or the burn begins, and no
iteration follows another that took no time. -/
structure MeetsDemand (m : AutonomousMiner) (w : Loop) (e : Event) (w' : Loop) : Prop where
  engages : ∀ gpu cpu, e = .chunkDone gpu cpu → ranSession gpu = false → ranSession cpu = false →
    if haConfigured m then w'.point = .turningOn ∨ w'.point = .holding else w'.point = .burning
  progresses : w.point ≠ .created → w.point ≠ .reading → w'.point = .reading → takesTime e = true

/-- Where neither handler of a chunk has run a session, both have skipped. -/
def SkipsOpenly (w : Loop) : Event → Prop
  | .chunkDone gpu cpu => w.point = .mining → ranSession gpu = false → ranSession cpu = false →
      gpu = .returns true ∧ cpu = .returns true
  | _ => True

theorem point_afterChunk_skipped (m : AutonomousMiner) (w : Loop) :
    if haConfigured m then
      (afterChunk m w (.dict true) (.dict true)).point = .turningOn ∨
        (afterChunk m w (.dict true) (.dict true)).point = .holding
    else (afterChunk m w (.dict true) (.dict true)).point = .burning := by
  cases hm : haConfigured m with
  | false => simp [afterChunk, skipped, hm]
  | true => cases hh : w.heaterOn <;> simp [afterChunk, skipped, hm, hh]

theorem point_leave_ne_reading (w : Loop) : (leave w).point ≠ .reading := by
  cases h : w.heaterOn <;> simp [leave, h]

theorem not_engaged_again (m : AutonomousMiner) (w : Loop) :
    ¬ if haConfigured m then (again w).point = .turningOn ∨ (again w).point = .holding
      else (again w).point = .burning := by
  have hpoint : (again w).point = .reading ∨ (again w).point = .exiting ∨
      (again w).point = .exited := by
    rw [again, leave]
    split_ifs <;> simp
  rcases hpoint with hp | hp | hp <;> simp [hp]

theorem meetsDemand_chunkDone {m : AutonomousMiner} {w : Loop} {gpu cpu : Handler}
    (hp : w.point = .mining) (h : SkipsOpenly w (.chunkDone gpu cpu)) :
    MeetsDemand m w (.chunkDone gpu cpu) (afterChunk m w (runShim gpu) (runShim cpu)) := by
  constructor
  · intro gpu' cpu' he hgpu hcpu
    cases he
    obtain ⟨rfl, rfl⟩ := h hp hgpu hcpu
    exact point_afterChunk_skipped m w
  · intro _ _ hreading
    by_contra htime
    rw [takesTime, Bool.or_eq_true, not_or, Bool.not_eq_true, Bool.not_eq_true] at htime
    obtain ⟨rfl, rfl⟩ := h hp htime.1 htime.2
    have hengaged := point_afterChunk_skipped m w
    simp only [runShim] at hreading
    rw [hreading] at hengaged
    simp at hengaged

theorem skipsOpenly_of_meetsDemand {m : AutonomousMiner} {w : Loop} {gpu cpu : Handler}
    (h : MeetsDemand m w (.chunkDone gpu cpu) (afterChunk m w (runShim gpu) (runShim cpu))) :
    SkipsOpenly w (.chunkDone gpu cpu) := by
  intro _ hgpu hcpu
  have hengages := h.engages gpu cpu rfl hgpu hcpu
  have hskips : (skipped (runShim gpu) && skipped (runShim cpu)) = true := by
    by_contra hskips
    rw [afterChunk, if_neg hskips] at hengages
    exact not_engaged_again m w hengages
  cases gpu <;> cases cpu <;> simp_all [runShim, skipped]

/-- No other answer than the end of a chunk can fail the demand. -/
theorem meetsDemand_of_ne {m : AutonomousMiner} {w w' : Loop} {e : Event}
    (hchunk : ∀ gpu cpu, e ≠ .chunkDone gpu cpu)
    (hprogress : w.point ≠ .created → w.point ≠ .reading → w'.point = .reading →
      takesTime e = true) : MeetsDemand m w e w' :=
  ⟨fun gpu cpu he => absurd he (hchunk gpu cpu), hprogress⟩

theorem meetsDemand_step_iff (m : AutonomousMiner) (w : Loop) (e : Event) :
    (∀ w', step m w e = some w' → MeetsDemand m w e w') ↔ SkipsOpenly w e := by
  cases e with
  | chunkDone gpu cpu =>
    by_cases hp : w.point = .mining
    · have hw : step m w (.chunkDone gpu cpu) =
          some (afterChunk m w (runShim gpu) (runShim cpu)) := if_pos hp
      rw [hw]
      constructor
      · intro h
        exact skipsOpenly_of_meetsDemand (h _ rfl)
      · rintro h w' ⟨⟩
        exact meetsDemand_chunkDone hp h
    · have hw : step m w (.chunkDone gpu cpu) = none := if_neg hp
      rw [hw]
      exact iff_of_true (fun _ h => absurd h.symm (Option.some_ne_none _)) (fun h => absurd h hp)
  | resumed =>
    refine iff_of_true (fun w' hw => ?_) trivial
    obtain ⟨hp, -⟩ := Option.ite_none_right_eq_some.mp hw
    exact meetsDemand_of_ne (by intro _ _ he; cases he) fun hcreated => absurd hp hcreated
  | read measuredKw =>
    refine iff_of_true (fun w' hw => ?_) trivial
    obtain ⟨hp, -⟩ := Option.ite_none_right_eq_some.mp hw
    exact meetsDemand_of_ne (by intro _ _ he; cases he) fun _ hreading => absurd hp hreading
  | stop =>
    refine iff_of_true (fun w' hw => ?_) trivial
    obtain ⟨-, ⟨⟩⟩ := Option.ite_none_left_eq_some.mp hw
    exact meetsDemand_of_ne (by intro _ _ he; cases he) fun _ hreading h => absurd h hreading
  | stopSeen =>
    refine iff_of_true (fun w' hw => ?_) trivial
    obtain ⟨-, ⟨⟩⟩ := Option.ite_none_right_eq_some.mp hw
    exact meetsDemand_of_ne (by intro _ _ he; cases he) fun _ _ h =>
      absurd h (point_leave_ne_reading w)
  | timeout | burned =>
    exact iff_of_true (fun w' _ => meetsDemand_of_ne (by intro _ _ he; cases he)
      fun _ _ _ => rfl) trivial
  | answered acked =>
    refine iff_of_true (fun w' hw => meetsDemand_of_ne (by intro _ _ he; cases he)
      fun _ _ h => ?_) trivial
    cases hp : w.point <;> simp only [step, answer, hp, Option.some.injEq, reduceCtorEq] at hw <;>
      subst hw <;> cases h
  | cancel acked =>
    refine iff_of_true (fun w' hw => meetsDemand_of_ne (by intro _ _ he; cases he)
      fun _ _ h => ?_) trivial
    cases hp : w.point <;> simp only [step, cancel, hp, Option.some.injEq, reduceCtorEq] at hw <;>
      subst hw <;> first | cases h | exact absurd h (point_leave_ne_reading _)

/-- Along every run the demand is met in each iteration exactly when a chunk without
a session is one that both handlers have skipped. -/
theorem meetsDemand_iff_skipsOpenly (m : AutonomousMiner) (events : List Event) :
    Run.AlongSteps (step m) (MeetsDemand m) initial events ↔
      Run.Along (step m) SkipsOpenly initial events :=
  Run.along_iff (meetsDemand_step_iff m)

def failedIteration : List Event := [.read (some (.fin 2)), .chunkDone .raises .raises]

theorem exec_failedIterations (m : AutonomousMiner) (n : ℕ) :
    Run.exec (step m) { initial with point := .reading }
        (List.replicate n failedIteration).flatten =
      some { initial with point := .reading } := by
  induction n with
  | zero => rfl
  | succ n ih =>
    rw [List.replicate_succ, List.flatten_cons]
    exact ih

theorem not_meetsDemand_failedIteration :
    ¬ Run.AlongSteps (step ⟨"http://ha", "token", "switch.heater"⟩)
      (MeetsDemand ⟨"http://ha", "token", "switch.heater"⟩) initial
      ([.resumed, .read (some (.fin 2))] ++ [.chunkDone .raises .raises]) := by
  intro h
  have hlast := h.at rfl _ rfl
  exact absurd (hlast.engages _ _ rfl rfl rfl) (by decide)

end HadcdAgent.MiningLoop
