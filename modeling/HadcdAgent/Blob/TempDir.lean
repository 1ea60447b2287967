import HadcdAgent.Blob.Assignment

/-!
# The temporary directory of an assignment

Whether the directory that `_run_assignment` (`agent/agent.py`) creates is gone when
the run has ended, whatever has struck on the way.
-/

namespace HadcdAgent.Blob

open Lib

section Directory

variable {env : Env} {a : Assignment}

def Work.dir (w : Work) : Bool × Bool := (w.created, w.present)

theorem dir_postResult (p : Point) (post : ResultPost) (w : Work) :
    (final (postResult env p post) w).dir = w.dir := by
  rw [final, postResult]
  cases env.strikes p with
  | none => rfl
  | some s =>
    dsimp only
    cases s.isException <;> rfl

theorem dir_rmtree (w : Work) :
    (final (rmtree env) w).dir = (w.created, w.present && !removes env) := by
  rw [rmtree, removes]
  cases hs : env.strikes .rmtree with
  | none => rw [final_bind_of_ok (reach_of_none hs w)]; rfl
  | some s =>
    rw [final_bind_of_error (reach_of_some hs w), Option.isNone_some, Bool.false_and, Bool.not_false,
      Bool.and_true]
    rfl

theorem dir_report (outcome : Executor.TaskOutcome) (ids : List Json) (w : Work) :
    (final (report env a outcome ids) w).dir = w.dir := by
  cases hr : env.strikes .report with
  | some s => rw [report, final_bind_of_error (reach_of_some hr w)]
  | none =>
    rw [report, final_bind_of_ok (reach_of_none hr w)]
    refine (final_bind_congr Work.dir (fun _ t => ?_) w).trans (dir_postResult _ _ w)
    rw [final_reach]

/-- Whatever the handler and the uploads do, the directory is left as the `finally`
leaves it. -/
theorem dir_runStaged (args : Executor.TaskDict) (w : Work) :
    (final (runStaged env a (some args)) w).dir = (final (cleanup env a) w).dir := by
  have hkeep : ∀ (ran : Executor.TaskOutcome × List Json) (t : Work),
      (final (report env a ran.1 ran.2) t).dir = t.dir := fun ran t => dir_report ran.1 ran.2 t
  rw [runStaged, final_bind_congr Work.dir hkeep, final_tryFinally, final_liftExcept]

variable (env a)

def Creates : Prop :=
  env.strikes .unpack = none ∧ stages a = true ∧ env.strikes .mkdtemp = none

/-- The directory that the run created is gone when the run has ended. -/
def Removed : Prop :=
  (final (runAssignment env a) idleWork).created = true →
    (final (runAssignment env a) idleWork).present = false

/-- A run that creates its directory goes on to the `try`, or to the early return, and
`rmtree` works. -/
def Tidies : Prop :=
  Creates env a → removes env = true ∧ (ReachesTry env a ∨ GivesUp env a)

variable {env a}

theorem runAssignment_of_creates (h : Creates env a) :
    runAssignment env a idleWork =
      (do let args ← stageFiles env a; runStaged env a args : Act _) ⟨true, true, []⟩ := by
  obtain ⟨hunpack, hst, hmk⟩ := h
  rw [runAssignment, bind_of_ok (reach_of_none hunpack _)]
  rw [if_pos hst]
  have hrun : mkdtemp env idleWork = .ok () ⟨true, true, []⟩ := by
    rw [mkdtemp, bind_of_ok (reach_of_none hmk _)]
    rfl
  rw [bind_of_ok hrun]

theorem dir_of_creates (h : Creates env a) :
    ((ReachesTry env a ∨ GivesUp env a) ∧
      (final (runAssignment env a) idleWork).dir = (true, !removes env)) ∨
    (¬ (ReachesTry env a ∨ GivesUp env a) ∧
      (final (runAssignment env a) idleWork).dir = (true, true)) := by
  rw [final, runAssignment_of_creates h, ← final]
  rcases stageFiles_cases env a ⟨true, true, []⟩ with ⟨htry, staged, -, hf⟩ | ⟨hup, e, hf⟩ |
    ⟨htry, hup, s, posts, hf⟩
  · refine Or.inl ⟨Or.inl htry, ?_⟩
    rw [final_bind_of_ok hf, dir_runStaged, cleanup, if_pos h.2.1, dir_rmtree, Bool.true_and]
  · refine Or.inl ⟨Or.inr hup, ?_⟩
    rw [final_of_givesUp hf, dir_rmtree, Bool.true_and]
  · refine Or.inr ⟨not_or.mpr ⟨htry, hup⟩, ?_⟩
    rw [final_bind_of_error hf]
    rfl

theorem present_of_not_creates (h : ¬ Creates env a) :
    (final (runAssignment env a) idleWork).present = false := by
  cases hunpack : env.strikes .unpack with
  | some s => rw [runAssignment, final_bind_of_error (reach_of_some hunpack _)]; rfl
  | none =>
    rw [runAssignment, final_bind_of_ok (reach_of_none hunpack _)]
    split_ifs with hst
    · cases hmk : env.strikes .mkdtemp with
      | none => exact absurd ⟨hunpack, hst, hmk⟩ h
      | some s =>
        have hrun : mkdtemp env idleWork = .error s idleWork := by
          rw [mkdtemp, bind_of_error (reach_of_some hmk _)]
        rw [final_bind_of_error hrun]
        rfl
    · change (final (do let args ← stageFiles env a; runStaged env a args : Act _) idleWork).present =
        false
      rcases stageFiles_cases env a idleWork with ⟨-, staged, -, hf⟩ | ⟨hup, -⟩ | ⟨-, -, s, posts, hf⟩
      · rw [final_bind_of_ok hf]
        have hdir : (final (runStaged env a (some staged.args)) idleWork).dir = _ :=
          dir_runStaged staged.args idleWork
        rw [cleanup, if_neg hst] at hdir
        exact congrArg Prod.snd hdir
      · exact absurd (stages_of_inputs hup.1) hst
      · rw [final_bind_of_error hf]
        rfl

/-- The temporary directory of an assignment does not outlive it exactly when nothing
strikes between its creation and the `try`, the early return aside. -/
theorem removed_iff : Removed env a ↔ Tidies env a := by
  unfold Removed Tidies
  by_cases h : Creates env a
  · rw [forall_prop_of_true h]
    rcases dir_of_creates h with ⟨hout, hdir⟩ | ⟨hout, hdir⟩
    · obtain ⟨hc, hp⟩ := Prod.mk.inj hdir
      rw [hc, hp, forall_prop_of_true rfl, Bool.not_eq_false', and_iff_left hout]
    · obtain ⟨hc, hp⟩ := Prod.mk.inj hdir
      rw [hc, hp]
      exact iff_of_false (fun h => Bool.noConfusion (h rfl)) fun h => hout h.2
  · exact iff_of_true (fun _ => present_of_not_creates h) fun hc => absurd hc h

end Directory

def cancelledDownload : Assignment :=
  ⟨.str "t1", [], [(⟨"id1", some "m.bin", none⟩, .strikes)], .int 100⟩

theorem not_removed_cancelledDownload :
    removes (quietEnv []) = true ∧ ¬ Removed (quietEnv []) cancelledDownload := by
  refine ⟨rfl, fun h => ?_⟩
  have hgone := h rfl
  cases hgone

end HadcdAgent.Blob
