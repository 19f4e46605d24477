import AgentConsole.Proofs.Presenter.Coherence
import AgentConsole.Proofs.Presenter.Outcomes
import Mathlib.Data.List.Induction

/-!
# Results and the inputs they belong to

Input makes a presenter track a tool, and a result makes it forget the tool.  In between other tools
have input and results of their own, and each of them takes the spinner and changes which tool is
the current one.  None of this matters: whether a tool is tracked, and with that whether a result of
it is matched, depends on the last that has been heard of this tool and on nothing else.

* `Cue.InputLast` : the last that has been heard of a tool is input.
* `Tracking.Coherent.tracked_play_iff` : then, and only then, the tool is tracked.
* `Stage.tracked_iff_input_last` : the same of a run, and what a result does in the midst of it.
-/

namespace AgentConsole

namespace Cue

/-- The cues about a tool, in order. -/
def about (id : ToolId) (cues : List Cue) : List Cue := cues.filter (·.tool? = some id)

/-- The last that has been heard of a tool is input. -/
def InputLast (id : ToolId) (cues : List Cue) : Prop :=
  ∃ now u, (about id cues).getLast? = some (.input now u)

theorem not_inputLast_nil (id : ToolId) : ¬ InputLast id [] := by
  rintro ⟨now, u, h⟩
  cases h

/-- What is heard of a tool with one more cue: the cue, if it is about the tool. -/
theorem inputLast_append_singleton {id : ToolId} {cues : List Cue} {q : Cue} :
    InputLast id (cues ++ [q]) ↔
      if q.tool? = some id then ∃ now u, q = .input now u else InputLast id cues := by
  simp only [InputLast, about, List.filter_append]
  split
  · rename_i h
    simp [h]
  · rename_i h
    simp [h]

end Cue

namespace Tracking

@[simp] theorem step_notifies (t : Tracking) (q : Cue) : (t.step q).notifies = t.notifies := by
  cases q with
  | input now u =>
    obtain ⟨tools, h⟩ := (t.turn now u).observe_eq u
    rw [step, h, turn]
    split <;> rfl
  | result now id e =>
    rw [step, conclude]
    split <;> rfl
  | _ => rfl

/-- Whether notifications are sent never changes. -/
@[simp] theorem play_notifies (t : Tracking) (cues : List Cue) :
    (t.play cues).notifies = t.notifies := by
  induction cues generalizing t with
  | nil => rfl
  | cons q rest ih => rw [play_cons, ih, step_notifies]

/-- A tool that was not tracked at first is tracked exactly while the last that has been heard of it
is input. -/
theorem Coherent.tracked_play_iff {t : Tracking} (h : t.Coherent) {id : ToolId}
    (hnone : t.tools.find? id = none) (cues : List Cue) :
    ((t.play cues).tools.find? id).isSome ↔ Cue.InputLast id cues := by
  induction cues using List.reverseRecOn with
  | nil => simp [hnone, Cue.not_inputLast_nil]
  | append_singleton cues q ih =>
    rw [play_append, play_cons, play_nil, Cue.inputLast_append_singleton]
    by_cases hq : q.tool? = some id
    · rw [if_pos hq]
      cases q with
      | input now u =>
        obtain rfl : u.id = id := Option.some.inj hq
        simp [(h.play cues).tracked_step_input now u]
      | result now ended e =>
        obtain rfl : ended = id := Option.some.inj hq
        rw [Tracking.step, find?_conclude]
        simp
      | _ => cases hq
    · rw [if_neg hq, find?_step hq, ih]

/-- The end of a tracked tool sends one notification, if any are sent. -/
theorem filter_isNotification_concludeCalls {t : Tracking} {id : ToolId} {i : Invocation}
    (hi : t.tools.find? id = some i) (now : Nat) (e : Ending) :
    (t.concludeCalls now id e).filter Call.isNotification =
      if t.notifies then [.notify i.name (i.summary now e)] else [] := by
  simp only [concludeCalls, hi, spinnerCalls, List.filter_append]
  cases t.spinner <;> cases t.notifies <;> simp [Call.isNotification]

end Tracking

/-- How a tool is summed up depends on whether its result says that it succeeded. -/
theorem Invocation.summary_ofResult (i : Invocation) (now : Nat) (r : ToolResult) :
    i.summary now (.ofResult r) =
      if r.status = some .success then
        i.name ++ " completed in " ++ secondsText (secondsOf (now - i.startedAt)) ++ "s"
      else i.name ++ " failed after " ++ secondsText (secondsOf (now - i.startedAt)) ++ "s" := by
  by_cases hsuccess : r.status = some .success
  · simp [summary, Ending.ofResult, ToolResult.succeeded, hsuccess]
  · simp [summary, Ending.ofResult, ToolResult.succeeded, hsuccess]

/-- A callback that has lost its message. -/
def Callback.withoutMessage (c : Callback) : Callback := { c with message := none }

namespace Stage

variable {World : Type} (d : Display World)

/-- A message is taken after all else. -/
theorem handle_eq_followMessage (s : Stage World) (now : Nat) (c : Callback) :
    s.handle d now c = (s.handle d now c.withoutMessage).followMessage d now c := rfl

/-- Results are taken one after the other. -/
theorem followMessage_of_userResults_ne_nil (s : Stage World) (now : Nat) {c : Callback}
    (h : c.userResults ≠ []) :
    s.followMessage d now c = c.userResults.foldl (resolve d now) s := by
  unfold Callback.userResults at h
  unfold followMessage Callback.userResults
  split at h
  · rename_i m hm
    rw [hm]
    by_cases hrole : m.role = .user
    · simp [hrole, takeMessage]
    · simp [hrole] at h
  · exact absurd rfl h

theorem run_append_cons (before : List Delivery) (x : Delivery) (after : List Delivery)
    (s : Stage World) :
    run d (before ++ x :: after) s = run d after ((run d before s).handle d x.time x.callback) := by
  simp [run]

/-- A result whose tool is not tracked changes nothing. -/
theorem resolve_of_find?_eq_none {s : Stage World} {id : ToolId} {r : ToolResult}
    (hr : r.id = some id) (hi : s.presenter.tools.find? id = none) (now : Nat) :
    s.resolve d now r = s.remark (.untracked id) := by
  simp [resolve, hr, hi]

/-- A result whose tool is tracked concludes the tool. -/
theorem resolve_of_find?_eq_some {s : Stage World} {id : ToolId} {r : ToolResult} {i : Invocation}
    (hr : r.id = some id) (hi : s.presenter.tools.find? id = some i) (now : Nat) :
    s.resolve d now r = s.conclude d now id i (.ofResult r) := by
  simp [resolve, hr, hi]

theorem conclude_tools {s : Stage World} {id : ToolId} {i : Invocation} (e : Ending)
    (hi : s.presenter.tools.find? id = some i) (now : Nat) :
    (s.conclude d now id i e).presenter.tools = s.presenter.tools.erase id := by
  have htools : (s.conclude d now id i e).presenter.tools = _ :=
    congrArg Tracking.tools (conclude_tracking d s now e hi)
  rw [htools, Tracking.conclude_of_find?_eq_some (t := s.tracking) hi]
  rfl

theorem conclude_notifications {s : Stage World} {id : ToolId} {i : Invocation} (e : Ending)
    (hi : s.presenter.tools.find? id = some i) (now : Nat) :
    (s.conclude d now id i e).notifications =
      s.notifications ++
        if s.presenter.notifies then [.notify i.name (i.summary now e)] else [] := by
  rw [notifications_eq, conclude_steadyCalls d s now e hi, List.filter_append, ← notifications_eq,
    Tracking.filter_isNotification_concludeCalls hi]
  rfl

/-- After any run of a new presenter a tool is tracked if and only if the last that has been heard
of it is input.

Take any result in the run that names the tool, and let `s` be the stage when its turn comes.  If
the last that has been heard of the tool is input, the result is matched: the presenter forgets the
tool, and, if it sends notifications, sends exactly one, worded as a success exactly when the result
says so.  Otherwise nothing changes. -/
theorem tracked_iff_input_last (deliveries : List Delivery) (notifies : Bool) (opened : Nat)
    (w : World) (id : ToolId) :
    let start := Stage.enter (.new notifies) opened w
    (((run d deliveries start).presenter.tools.find? id).isSome ↔
      Cue.InputLast id (deliveries.flatMap Delivery.cues)) ∧
    ∀ before x after earlier r later, deliveries = before ++ x :: after →
      x.callback.userResults = earlier ++ r :: later → r.id = some id →
      let s := earlier.foldl (resolve d x.time)
        ((run d before start).handle d x.time x.callback.withoutMessage)
      let s' := s.resolve d x.time r
      let heard := before.flatMap Delivery.cues ++ x.callback.withoutMessage.cues x.time ++
        earlier.filterMap (·.cue? x.time)
      run d deliveries start = run d after (later.foldl (resolve d x.time) s') ∧
      (Cue.InputLast id heard → ∃ i, s.presenter.tools.find? id = some i ∧
        s'.presenter.tools = s.presenter.tools.erase id ∧
        s'.notifications = s.notifications ++
          if notifies then
            [.notify i.name (if r.status = some .success then
              i.name ++ " completed in " ++ secondsText (secondsOf (x.time - i.startedAt)) ++ "s"
            else
              i.name ++ " failed after " ++ secondsText (secondsOf (x.time - i.startedAt)) ++ "s")]
          else []) ∧
      (¬ Cue.InputLast id heard → s.presenter.tools.find? id = none ∧
        s'.presenter = s.presenter ∧ s'.notifications = s.notifications) := by
  intro start
  have hnew := Tracking.coherent_new notifies opened
  have htracked := hnew.tracked_play_iff (show [].lookup id = none from rfl)
  refine ⟨?_, ?_⟩
  · have htools : (run d deliveries start).presenter.tools = _ :=
      congrArg Tracking.tools (follows_run d deliveries start).tracking
    rw [htools, ← htracked]
    rfl
  · intro before x after earlier r later hsplit hresults hr s s' heard
    have hfollows := ((follows_run d before start).append
      (follows_handle d _ x.time x.callback.withoutMessage)).append
      (follows_foldl (fun s r ↦ follows_resolve d s x.time r) earlier _)
    have htracking : s.tracking = (Tracking.new notifies opened).play heard := hfollows.tracking
    have htools : s.presenter.tools = ((Tracking.new notifies opened).play heard).tools :=
      congrArg Tracking.tools htracking
    have hnotifies : s.presenter.notifies = notifies :=
      (congrArg Tracking.notifies htracking).trans (Tracking.play_notifies _ _)
    refine ⟨?_, ?_, ?_⟩
    · rw [hsplit, run_append_cons, handle_eq_followMessage,
        followMessage_of_userResults_ne_nil d _ _ (by simp [hresults]), hresults, List.foldl_append]
      rfl
    · intro hlast
      obtain ⟨i, hi⟩ := Option.isSome_iff_exists.mp ((htracked heard).mpr hlast)
      rw [← htools] at hi
      have hs' : s' = s.conclude d x.time id i (.ofResult r) := resolve_of_find?_eq_some d hr hi _
      refine ⟨i, hi, ?_, ?_⟩
      · rw [hs', conclude_tools d _ hi]
      · rw [hs', conclude_notifications d _ hi, hnotifies, Invocation.summary_ofResult]
    · intro hlast
      have hi : s.presenter.tools.find? id = none := by
        rw [htools, ← Option.not_isSome_iff_eq_none, htracked heard]
        exact hlast
      have hs' : s' = s.remark (.untracked id) := resolve_of_find?_eq_none d hr hi _
      exact ⟨hi, by rw [hs']; rfl, by rw [hs']; rfl⟩

/-- Two tools run at the same time, and both results come in one message.  The first result has
taken the spinner, and the second one is matched all the same. -/
theorem second_result_matched :
    let result (id : ToolId) : ToolResult := ⟨some id, some .success, []⟩
    let before := [⟨0, .ofInput "A" "shell" "a"⟩, ⟨1000000000, .ofInput "B" "editor" "b"⟩]
    let c := Callback.ofResults ["A", "B"]
    let heard := before.flatMap Delivery.cues ++ c.withoutMessage.cues 2000000000 ++
      [result "A"].filterMap (·.cue? 2000000000)
    let s := [result "A"].foldl (resolve .always 2000000000)
      ((run .always before (.enter (.new true) 0 ())).handle .always 2000000000 c.withoutMessage)
    c.userResults = [result "A"] ++ result "B" :: [] ∧ Cue.InputLast "B" heard ∧
      s.presenter.tools.find? "B" = some ⟨"editor", 1000000000, 1⟩ ∧
      (s.resolve .always 2000000000 (result "B")).notifications = s.notifications ++
        [.notify "editor" "editor completed in 1.0s"] := by
  intro result before c heard s
  have hlast : Cue.InputLast "B" heard := ⟨1000000000, ⟨"B", "editor", "b", by decide⟩, rfl⟩
  have hentry : s.presenter.tools.find? "B" = some ⟨"editor", 1000000000, 1⟩ := by decide
  have hsummary : "editor completed in 1.0s" =
      "editor" ++ " completed in " ++ secondsText (secondsOf (2000000000 - 1000000000)) ++ "s" := by
    decide +kernel
  obtain ⟨i, hi, -, hnotifications⟩ :=
    ((tracked_iff_input_last .always (before ++ [⟨2000000000, c⟩]) true 0 () "B").2 before
      ⟨2000000000, c⟩ [] [result "A"] (result "B") [] rfl rfl rfl).2.1 hlast
  obtain rfl := Option.some.inj (hentry.symm.trans hi)
  rw [hsummary]
  exact ⟨rfl, hlast, hentry, hnotifications⟩

end Stage

end AgentConsole
