import HadcdAgent.Blob.Assignment

/-!
# The result of an assignment

Whether `_run_assignment` (`agent/agent.py`) posts one result and what it says, for
every behaviour of the blob endpoints and of the handler.
-/

namespace HadcdAgent.Blob

open Lib

/-! ### The replies to the uploads -/

/-- A reply that `upload` takes: if it is 2xx, its body is an object with an id. -/
def WellAnswered : UploadReply → Prop
  | .response status body => isSuccess status = true →
    ∃ kvs id, body = .value (.obj kvs) ∧ lookup ("id" : Str) kvs = some id
  | .failed => True
  | .strikes _ => False

theorem idOf_result_iff (body : Loads) :
    (∃ id, body.result >>= idOf = .ok id) ↔
      ∃ kvs id, body = .value (.obj kvs) ∧ lookup ("id" : Str) kvs = some id := by
  constructor
  · intro hok
    obtain ⟨id, h⟩ := hok
    obtain ⟨data, hdata, hid⟩ := bind_eq_ok h
    cases body with
    | value data' =>
      cases hdata
      cases data with
      | obj kvs =>
        rw [idOf] at hid
        cases hlook : lookup ("id" : Str) kvs with
        | some id' => exact ⟨kvs, id', rfl, hlook⟩
        | none => rw [hlook] at hid; cases hid
      | _ => cases hid
    | _ => cases hdata
  · rintro ⟨kvs, id, rfl, hlook⟩
    refine ⟨id, ?_⟩
    rw [Loads.result, ok_bind, idOf, hlook]

theorem upload_wellAnswered_iff (reply : UploadReply) :
    (∀ s, upload reply ≠ .error (.other s)) ↔ WellAnswered reply := by
  cases reply with
  | failed => exact iff_of_true (fun s h => (by cases h)) trivial
  | strikes s => exact iff_of_false (fun h => h s rfl) id
  | response status body =>
    rw [WellAnswered, ← idOf_result_iff, upload]
    split_ifs with hstatus
    · rw [forall_prop_of_true hstatus]
      cases hbody : body.result >>= idOf with
      | ok id => exact iff_of_true (fun s h => (by cases h)) ⟨id, rfl⟩
      | error e => exact iff_of_false (fun h => h _ rfl) (by rintro ⟨id, h⟩; cases h)
    · exact iff_of_true (fun s h => (by cases h)) fun h => absurd h hstatus

theorem uploadDir_iff (replies : List UploadReply) :
    (∃ ids, uploadDir replies = .ok ids) ↔ ∀ reply ∈ replies, WellAnswered reply := by
  induction replies with
  | nil => exact iff_of_true ⟨[], rfl⟩ fun _ h => (by cases h)
  | cons reply replies ih =>
    rw [List.forall_mem_cons, ← ih, ← upload_wellAnswered_iff, uploadDir]
    cases hup : upload reply with
    | ok id =>
      rw [and_iff_right fun s h => (by cases h)]
      constructor
      · rintro ⟨ids, h⟩
        obtain ⟨ids', h', -⟩ := bind_eq_ok h
        exact ⟨ids', h'⟩
      · rintro ⟨ids, h⟩
        refine ⟨id :: ids, ?_⟩
        dsimp only
        rw [h]
        rfl
    | error e =>
      cases e with
      | blobClientError => rw [and_iff_right fun s h => (by cases h)]
      | other s => exact iff_of_false (by rintro ⟨ids, h⟩; cases h) fun h => h.1 s rfl

section Posts

variable {env : Env} {a : Assignment}

/-- Nothing strikes but what the endpoints and the handler do, and `volumes` is what
`list()` takes. -/
structure Calm (env : Env) (a : Assignment) : Prop where
  strikes : ∀ p, env.strikes p = none
  downloads : ∀ s ∈ a.inputBlobs, s.2 ≠ .strikes
  uploads : ∀ reply ∈ env.outputs, ∀ s, reply ≠ .strikes s
  volumes : a.inputBlobs ≠ [] → existingVolumes a ≠ none

theorem Calm.reach (h : Calm env a) (p : Point) (w : Work) : reach env p w = .ok () w :=
  reach_of_none (h.strikes p) w

theorem Calm.strikeAt (h : Calm env a) (p : Point) : strikeAt env p = .ok () := by
  rw [Blob.strikeAt, h.strikes p]

theorem Calm.postResult (h : Calm env a) (p : Point) (post : ResultPost) (w : Work) :
    postResult env p post w = .ok () { w with posts := w.posts ++ [post] } :=
  postResult_of_exceptions (fun _ hs => (by cases (h.strikes p).symm.trans hs)) post w

theorem Calm.reachesTry (h : Calm env a) (hf : Fetched env a) : ReachesTry env a :=
  ⟨fun hne => ⟨h.strikes _, hf, h.volumes hne, h.strikes _⟩, fun _ => h.strikes _⟩

theorem answer_ne_raises {spec : BlobSpec} {reply : DownloadReply} (h : reply ≠ .strikes) :
    answer env spec reply ≠ .raises := by
  cases reply with
  | strikes => exact absurd rfl h
  | error text => exact fun h => (by cases h)
  | response status body =>
    rw [answer]
    split_ifs <;> exact fun h => (by cases h)

theorem Calm.givesUp (h : Calm env a) (hf : ¬ Fetched env a) : GivesUp env a := by
  obtain ⟨s, hs⟩ := Option.ne_none_iff_exists'.mp (fetched_iff.not.mp hf)
  have hmem : s ∈ inputs env a := List.mem_of_find?_eq_some hs
  refine ⟨?_, h.strikes _, ⟨s, hs, ?_⟩, fun s' hs' => (by cases (h.strikes _).symm.trans hs')⟩
  · intro hnil
    rw [inputs, answers, hnil] at hmem
    cases hmem
  · rw [inputs, answers, List.map_map] at hmem
    obtain ⟨input, hin, rfl⟩ := List.mem_map.mp hmem
    have hne : answer env input.1 input.2 ≠ .raises := answer_ne_raises (h.downloads input hin)
    exact (Bool.or_eq_true _ _).mpr (Or.inr (decide_eq_true hne))

/-- How the call in the pool may end for a result to be posted: nothing fatal is raised,
and what it returns is not lost to an upload. -/
def Settles (env : Env) (a : Assignment) : Executor.Ending Executor.TaskDict → Prop
  | .returns _ => wantsOutput a = true → ∀ reply ∈ env.outputs, WellAnswered reply
  | .raises e => e.fatal = false
  | .workerDies => True

theorem failed_of_not_fatal {e : Executor.Exn} (he : e.fatal = false) (job : Executor.Job)
    (now : ℤ) : ∃ o, Executor.failed job now e = .outcome o ∧ o.success = false := by
  rw [Executor.failed, if_neg (by rw [he]; exact Bool.false_ne_true)]
  exact ⟨_, rfl, rfl⟩

theorem handle_of_outcome (h : Calm env a) {args : Executor.TaskDict} {o : Executor.TaskOutcome}
    (hran : executorRun env args = .outcome o) :
    handle env a args = if wantsOutput a && o.success then (do
      let ids ← uploadDir env.outputs
      pure (o, ids)) else .ok (o, []) := by
  rw [handle, h.strikeAt, ok_bind, hran, awaited, ok_bind]
  split_ifs
  · rw [h.strikeAt, ok_bind]
  · rfl

theorem handle_of_failed (h : Calm env a) {args : Executor.TaskDict} {job : Executor.Job}
    {e : Executor.Exn} (he : e.fatal = false)
    (hran : executorRun env args = Executor.failed job env.now e) :
    ∃ o, handle env a args = .ok (o, []) ∧ o.success = false := by
  obtain ⟨o, ho, hfail⟩ := failed_of_not_fatal he job env.now
  refine ⟨o, ?_, hfail⟩
  rw [handle_of_outcome h (hran.trans ho), hfail, Bool.and_false]
  rfl

theorem handle_of_returned (h : Calm env a) {args result : Executor.TaskDict}
    (hcall : calls env args = .returns result) :
    (Settles env a (.returns result) ∧ ∃ o ids, handle env a args = .ok (o, ids) ∧
      o.success = true) ∨
    (¬ Settles env a (.returns result) ∧ ∃ s, handle env a args = .error s) := by
  have hran : executorRun env args =
      .outcome ⟨true, env.now - env.start, some result, none⟩ := by
    rw [executorRun, hcall]
    rfl
  rw [handle_of_outcome h hran, Bool.and_true, Settles]
  split_ifs with hw
  · rw [forall_prop_of_true hw, ← uploadDir_iff]
    cases hup : uploadDir env.outputs with
    | ok ids => exact Or.inl ⟨⟨ids, rfl⟩, _, ids, rfl, rfl⟩
    | error s => exact Or.inr ⟨(by rintro ⟨ids, h⟩; cases h), s, rfl⟩
  · exact Or.inl ⟨fun h => absurd h hw, _, [], rfl, rfl⟩

theorem handle_of_fatal (h : Calm env a) {args : Executor.TaskDict} {e : Executor.Exn}
    (hcall : calls env args = .raises e) (he : e.fatal = true) :
    handle env a args = .error (.raised e) := by
  rw [handle, h.strikeAt, ok_bind, executorRun, hcall]
  dsimp only
  rw [Executor.failed, if_pos he]
  rfl

theorem handle_cases (h : Calm env a) (args : Executor.TaskDict) :
    (Settles env a (calls env args) ∧ ∃ o ids, handle env a args = .ok (o, ids) ∧
      (o.success = true ↔ ∃ result, calls env args = .returns result)) ∨
    (¬ Settles env a (calls env args) ∧ ∃ s, handle env a args = .error s) := by
  let job : Executor.Job := ⟨⟨some "container".toList, some args, env.handler⟩, env.start⟩
  cases hcall : calls env args with
  | returns result =>
    rcases handle_of_returned h hcall with ⟨hs, o, ids, ho, hsuccess⟩ | hlost
    · exact Or.inl ⟨hs, o, ids, ho, iff_of_true hsuccess ⟨result, rfl⟩⟩
    · exact Or.inr hlost
  | raises e =>
    cases he : e.fatal with
    | true =>
      refine Or.inr ⟨fun hs => ?_, _, handle_of_fatal h hcall he⟩
      exact Bool.false_ne_true (hs.symm.trans he)
    | false =>
      have hran : executorRun env args = Executor.failed job env.now e := by
        rw [executorRun, hcall]
      obtain ⟨o, ho, hfail⟩ := handle_of_failed h he hran
      refine Or.inl ⟨he, o, [], ho, iff_of_false ?_ ?_⟩
      · exact fun hs => Bool.false_ne_true (hfail.symm.trans hs)
      · exact fun hr => by obtain ⟨result, hr⟩ := hr; cases hr
  | workerDies =>
    have hran : executorRun env args = Executor.failed job env.now Executor.workerDied := by
      rw [executorRun, hcall]
    obtain ⟨o, ho, hfail⟩ := handle_of_failed h rfl hran
    refine Or.inl ⟨trivial, o, [], ho, iff_of_false ?_ ?_⟩
    · exact fun hs => Bool.false_ne_true (hfail.symm.trans hs)
    · exact fun hr => by obtain ⟨result, hr⟩ := hr; cases hr

theorem posts_report (h : Calm env a) (o : Executor.TaskOutcome) (ids : List Json) (w : Work) :
    ∃ post, post.taskId = a.taskId ∧ post.success = o.success ∧
      (final (report env a o ids) w).posts = w.posts ++ [post] := by
  rw [report, final_bind_of_ok (h.reach .report w)]
  refine ⟨resultPost env a ((env.averageWatts.map Json.float).getD a.estimatedPowerW) o.durationSec
    o.success (withOutputs o.result ids) o.error, ?_, ?_, ?_⟩
  · unfold resultPost
    split_ifs <;> rfl
  · unfold resultPost
    cases o.success <;> rfl
  · rw [final_bind_of_ok (h.postResult .postResult _ w), final_reach]

theorem cleanup_of_calm (h : Calm env a) (w : Work) :
    ∃ t, cleanup env a w = .ok () t ∧ t.posts = w.posts := by
  rw [cleanup]
  split_ifs
  · refine ⟨{ w with present := w.present && !env.removable }, ?_, rfl⟩
    rw [rmtree, bind_of_ok (h.reach .rmtree w)]
    rfl
  · exact ⟨w, rfl, rfl⟩

/-- The task's outcome is posted once, or the body of the `try` has raised and nothing
is posted. -/
theorem posts_runStaged (h : Calm env a) (args : Executor.TaskDict) (w : Work) :
    (Settles env a (calls env args) ∧ ∃ post, post.taskId = a.taskId ∧
      (post.success = true ↔ ∃ result, calls env args = .returns result) ∧
      (final (runStaged env a (some args)) w).posts = w.posts ++ [post]) ∨
    (¬ Settles env a (calls env args) ∧
      (final (runStaged env a (some args)) w).posts = w.posts) := by
  obtain ⟨t, hclean, hposts⟩ := cleanup_of_calm h w
  rw [runStaged]
  rcases handle_cases h args with ⟨hs, o, ids, hok, hsuccess⟩ | ⟨hs, s, herr⟩
  · obtain ⟨post, hid, hpost, hfinal⟩ := posts_report h o ids t
    refine Or.inl ⟨hs, post, hid, hpost ▸ hsuccess, ?_⟩
    have hbody : (liftExcept (handle env a args) : Act _) w = .ok (o, ids) w := by rw [hok]; rfl
    rw [final_bind_of_ok (tryFinally_of_ok hbody hclean), hfinal, hposts]
  · refine Or.inr ⟨hs, ?_⟩
    have hbody : (liftExcept (handle env a args) : Act _) w = .error s w := by rw [herr]; rfl
    rw [final_bind_of_error (tryFinally_of_error hbody hclean), hposts]

theorem run_of_calm (h : Calm env a) : ∃ w : Work, w.posts = [] ∧
    runAssignment env a idleWork =
      (do let args ← stageFiles env a; runStaged env a args : Act _) w := by
  rw [runAssignment, bind_of_ok (h.reach .unpack _)]
  split_ifs
  · refine ⟨⟨true, true, []⟩, rfl, ?_⟩
    have hrun : mkdtemp env idleWork = .ok () ⟨true, true, []⟩ := by
      rw [mkdtemp, bind_of_ok (h.reach .mkdtemp _)]
      rfl
    rw [bind_of_ok hrun]
  · exact ⟨idleWork, rfl, rfl⟩

variable (env a)

def HandlerReturned : Prop :=
  ∃ staged result, stage env.host env.tmpDir a.args (answers env a) = .ok staged ∧
    calls env staged.args = .returns result

def Posted : Prop :=
  ∃ post, (final (runAssignment env a) idleWork).posts = [post] ∧ post.taskId = a.taskId ∧
    (post.success = true ↔ Fetched env a ∧ HandlerReturned env a)

/-- An input fails, or the call in the pool and the uploads after it come to an end that
is posted. -/
def Postable : Prop :=
  Fetched env a → ∃ staged, stage env.host env.tmpDir a.args (answers env a) = .ok staged ∧
    Settles env a (calls env staged.args)

variable {env a}

theorem posted_of_not_fetched (h : Calm env a) (hf : ¬ Fetched env a) : Posted env a := by
  obtain ⟨w, hw, hrun⟩ := run_of_calm h
  rw [Posted, final, hrun, ← final]
  have hup := h.givesUp hf
  rcases stageFiles_cases env a w with ⟨htry, -⟩ | ⟨-, e, hstage⟩ | ⟨-, hup', -⟩
  · exact absurd hup htry.1.not_givesUp
  · refine ⟨failurePost env a e, ?_, rfl, iff_of_false Bool.false_ne_true fun h => hf h.1⟩
    rw [final_of_givesUp hstage, rmtree, final_bind_of_ok (h.reach .rmtree _), hw]
    rfl
  · exact absurd hup hup'

theorem posted_iff_of_fetched (h : Calm env a) (hf : Fetched env a) :
    Posted env a ↔ Postable env a := by
  obtain ⟨w, hw, hrun⟩ := run_of_calm h
  rw [Posted, Postable, forall_prop_of_true hf, final, hrun, ← final]
  rcases stageFiles_cases env a w with ⟨-, staged, hs, hstage⟩ | ⟨hup, -⟩ | ⟨htry, -⟩
  · have hreturned : HandlerReturned env a ↔
        ∃ result, calls env staged.args = .returns result := by
      constructor
      · intro hret
        obtain ⟨staged', result, hs', hr⟩ := hret
        cases hs.symm.trans hs'
        exact ⟨result, hr⟩
      · intro hret
        obtain ⟨result, hr⟩ := hret
        exact ⟨staged, result, hs, hr⟩
    rw [final_bind_of_ok hstage]
    rcases posts_runStaged h staged.args w with ⟨hset, post, hid, hsuccess, hposts⟩ |
      ⟨hset, hposts⟩
    · refine iff_of_true ⟨post, ?_, hid, ?_⟩ ⟨staged, hs, hset⟩
      · rw [hposts, hw, List.nil_append]
      · rw [hsuccess, and_iff_right hf, hreturned]
    · refine iff_of_false ?_ ?_
      · intro hposted
        obtain ⟨post, hpost, -⟩ := hposted
        rw [hposts, hw] at hpost
        cases hpost
      · intro hpostable
        obtain ⟨staged', hs', hset'⟩ := hpostable
        cases hs.symm.trans hs'
        exact hset hset'
  · exact absurd hup (h.reachesTry hf).1.not_givesUp
  · exact absurd (h.reachesTry hf) htry

end Posts

def writingTask : Assignment :=
  ⟨.str "t1", [("output_paths", .arr [.str "/out"])], [], .int 100⟩

theorem calm_writingTask {reply : UploadReply} (h : ∀ s, reply ≠ .strikes s) :
    Calm (quietEnv [reply]) writingTask where
  strikes _ := rfl
  downloads _ hs := (by cases hs)
  uploads reply' hr := by
    rw [List.mem_singleton.mp hr]
    exact h
  volumes hne := absurd rfl hne

end HadcdAgent.Blob
