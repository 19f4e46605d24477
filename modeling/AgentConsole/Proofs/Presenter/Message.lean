import AgentConsole.Proofs.Presenter.Likeness
import Mathlib.Data.List.Perm.Basic

/-!
# Messages block by block

A message is taken after everything else that a callback carries, and one block after the other.  So
it makes no difference whether the blocks come in one message or in several that follow each other,
each in a callback of its own (`Stage.handle_of_split`).

Nor does it matter in which order the results of a message stand, as far as a presenter keeps track
of tools (`Stage.handle_of_perm`): to forget one tool and then another is to forget both.  There is
one spinner at most, and the first result that is matched takes it away.  So of all the results only
one gets a last line, and which one hangs on the order.  So do notifications where a tool is named
twice; where none is, each result is matched with the entry that its tool has had from the
beginning.

* `Stage.handle_of_split`, `Stage.handle_of_parts` : a message in two parts, and in any number of
  them.
* `Tracking.conclude_comm`, `Tracking.play_results_perm` : what is tracked after results in any
  order.
* `Tracking.filter_isFinal_trace_results` : the last line among the calls for some results.
* `Tracking.filter_isNotification_trace_results` : the notifications among them.
* `Stage.handle_of_perm` : messages of the user with the same blocks.
-/

namespace AgentConsole

namespace Callback

/-- A callback with nothing but a message. -/
def ofMessage (m : Message) : Callback := { empty with message := some (.valid m) }

/-- A callback with a message instead of the one that it has. -/
def withMessage (m : Message) (c : Callback) : Callback := { c with message := some (.valid m) }

end Callback

/-! ## Parts of a message -/

namespace Stage

variable {World : Type} (d : Display World)

/-- Nothing is handled where a callback has nothing but a message, except for that. -/
theorem handle_ofMessage (s : Stage World) (now : Nat) (m : Message) :
    s.handle d now (.ofMessage m) = s.takeMessage d now m := rfl

theorem handle_withMessage (s : Stage World) (now : Nat) (c : Callback) (m : Message) :
    s.handle d now (c.withMessage m) = (s.handle d now c.withoutMessage).takeMessage d now m := rfl

/-- A message is taken in two parts as it is taken as a whole. -/
theorem takeMessage_append (s : Stage World) (now : Nat) (role : Role) (front rest : List Block) :
    s.takeMessage d now ⟨role, front ++ rest⟩ =
      (s.takeMessage d now ⟨role, front⟩).takeMessage d now ⟨role, rest⟩ := by
  cases role with
  | assistant => simp only [takeMessage, Message.calls, List.filterMap_append, List.foldl_append]
  | user => simp only [takeMessage, Message.results, List.filterMap_append, List.foldl_append]
  | other => rfl

/-- A callback is handled as three that are handled at the same time, one after the other: what it
carries besides its message, and two messages of the same role that share the blocks between
them. -/
theorem handle_of_split (s : Stage World) (now : Nat) (c : Callback) (role : Role)
    (front rest : List Block) :
    s.handle d now (c.withMessage ⟨role, front ++ rest⟩) =
      ((s.handle d now c.withoutMessage).handle d now (.ofMessage ⟨role, front⟩)).handle d now
        (.ofMessage ⟨role, rest⟩) := by
  rw [handle_withMessage, takeMessage_append, handle_ofMessage, handle_ofMessage]

/-- The same holds of any number of parts. -/
theorem handle_of_parts (s : Stage World) (now : Nat) (c : Callback) (role : Role)
    (parts : List (List Block)) :
    s.handle d now (c.withMessage ⟨role, parts.flatten⟩) =
      run d (⟨now, c.withoutMessage⟩ :: parts.map fun part ↦ ⟨now,
        .ofMessage ⟨role, part⟩⟩) s := by
  rw [handle_withMessage, run, List.foldl_cons, List.foldl_map]
  generalize s.handle d now c.withoutMessage = s
  induction parts generalizing s with
  | nil => cases role <;> rfl
  | cons part parts ih =>
    rw [List.flatten_cons, takeMessage_append, List.foldl_cons, handle_ofMessage]
    exact ih _

end Stage

/-! ## Results in any order -/

namespace ToolResult

/-- The entry of the tool that a result names. -/
def entry? (tools : Tools) (r : ToolResult) : Option Invocation :=
  r.id.bind fun id ↦ tools.find? id

/-- The last act of the spinner at hand, if it is for this result. -/
def finalAct? (now : Nat) (tools : Tools) (r : ToolResult) : Option SpinnerAct :=
  (r.entry? tools).map fun i ↦ Stage.finalAct (.ofResult r) (i.summary now (.ofResult r))

/-- The notification that is sent for a result. -/
def notice? (now : Nat) (tools : Tools) (r : ToolResult) : Option Call :=
  (r.entry? tools).map fun i ↦ .notify i.name (i.summary now (.ofResult r))

variable {r : ToolResult} {tools : Tools}

theorem cue?_eq_none (h : r.id = none) (now : Nat) : r.cue? now = none := by
  rw [cue?, h]
  rfl

theorem cue?_eq_some {id : ToolId} (h : r.id = some id) (now : Nat) :
    r.cue? now = some (.result now id (.ofResult r)) := by
  rw [cue?, h]
  rfl

theorem exists_id_of_entry? {i : Invocation} (h : r.entry? tools = some i) :
    ∃ id, r.id = some id ∧ tools.find? id = some i := Option.bind_eq_some_iff.mp h

/-- A result without entry names no tool, or one that is not tracked. -/
theorem entry?_eq_none_iff :
    r.entry? tools = none ↔ ∀ id, r.id = some id → tools.find? id = none :=
  Option.bind_eq_none_iff

end ToolResult

namespace Tracking

variable {t : Tracking} {id : ToolId}

/-- To let go of one tool and then of another is the same as the other way round. -/
theorem conclude_comm (t : Tracking) (id other : ToolId) :
    (t.conclude id).conclude other = (t.conclude other).conclude id := by
  by_cases heq : other = id
  · rw [heq]
  have hother : (t.conclude id).tools.find? other = t.tools.find? other := by
    rw [find?_conclude, if_neg heq]
  have hid : (t.conclude other).tools.find? id = t.tools.find? id := by
    rw [find?_conclude, if_neg (Ne.symm heq)]
  cases hi : t.tools.find? id with
  | none => rw [conclude_of_find?_eq_none hi, conclude_of_find?_eq_none (hid.trans hi)]
  | some i =>
    cases hj : t.tools.find? other with
    | none => rw [conclude_of_find?_eq_none hj, conclude_of_find?_eq_none (hother.trans hj)]
    | some j =>
      rw [conclude_of_find?_eq_some (hother.trans hj), conclude_of_find?_eq_some (hid.trans hi),
        conclude_of_find?_eq_some hi, conclude_of_find?_eq_some hj, Tools.erase_comm]

/-- Results let go of the tools that they name, one after the other. -/
theorem play_results (t : Tracking) (now : Nat) (results : List ToolResult) :
    t.play (results.filterMap (·.cue? now)) =
      (results.filterMap (·.id)).foldl (fun t id ↦ t.conclude id) t := by
  induction results generalizing t with
  | nil => rfl
  | cons r rest ih =>
    cases hr : r.id with
    | none =>
      rw [List.filterMap_cons_none (ToolResult.cue?_eq_none hr now), List.filterMap_cons_none hr]
      exact ih t
    | some id =>
      rw [List.filterMap_cons_some (ToolResult.cue?_eq_some hr now), List.filterMap_cons_some hr]
      exact ih (t.conclude id)

/-- In whatever order results come, the same is tracked afterwards. -/
theorem play_results_perm {results results' : List ToolResult} (h : results.Perm results')
    (t : Tracking) (now : Nat) :
    t.play (results.filterMap (·.cue? now)) = t.play (results'.filterMap (·.cue? now)) := by
  have hcomm : RightCommutative fun (t : Tracking) (id : ToolId) ↦ t.conclude id :=
    ⟨conclude_comm⟩
  rw [play_results, play_results]
  exact (h.filterMap _).foldl_eq t

section Calls

variable {r : ToolResult} {rest : List ToolResult} (now : Nat)

/-- A result without entry makes no calls. -/
theorem trace_results_of_entry?_eq_none (h : r.entry? t.tools = none) :
    t.trace ((r :: rest).filterMap (·.cue? now)) = t.trace (rest.filterMap (·.cue? now)) := by
  cases hr : r.id with
  | none => rw [List.filterMap_cons_none (ToolResult.cue?_eq_none hr now)]
  | some id =>
    have hi := ToolResult.entry?_eq_none_iff.mp h id hr
    rw [List.filterMap_cons_some (ToolResult.cue?_eq_some hr now), trace_cons, calls, step,
      concludeCalls_of_find?_eq_none hi, conclude_of_find?_eq_none hi, List.nil_append]

/-- A result makes its calls, and lets go of the tool before the next one comes. -/
theorem trace_results_of_id_eq_some (hr : r.id = some id) :
    t.trace ((r :: rest).filterMap (·.cue? now)) =
      t.calls (.result now id (.ofResult r)) ++
        (t.conclude id).trace (rest.filterMap (·.cue? now)) := by
  rw [List.filterMap_cons_some (ToolResult.cue?_eq_some hr now), trace_cons]
  rfl

/-- Of all results only the first one that is matched has a last line, if there is a spinner at hand
for it. -/
theorem filter_isFinal_trace_results (t : Tracking) (results : List ToolResult) :
    (t.trace (results.filterMap (·.cue? now))).filter Call.isFinal =
      (t.spinner.bind fun n ↦
        (results.findSome? (·.finalAct? now t.tools)).map (.spinner n ·)).toList := by
  induction results generalizing t with
  | nil => cases t.spinner <;> rfl
  | cons r rest ih =>
    cases hentry : r.entry? t.tools with
    | none =>
      rw [trace_results_of_entry?_eq_none now hentry, ih, List.findSome?_cons,
        ToolResult.finalAct?, hentry]
      rfl
    | some i =>
      obtain ⟨id, hr, hi⟩ := ToolResult.exists_id_of_entry? hentry
      -- The spinner goes with this result, so none is left for those that follow.
      have hgone : (t.conclude id).spinner = none := by rw [conclude_of_find?_eq_some hi]
      rw [trace_results_of_id_eq_some now hr, List.filter_append, filter_isFinal_calls, ih, hgone,
        conclusion?, hi, List.findSome?_cons, ToolResult.finalAct?, hentry]
      cases t.spinner <;> rfl

/-- The other results do not touch the entry of a tool. -/
theorem entry?_conclude (h : r.id ≠ some id) :
    r.entry? (t.conclude id).tools = r.entry? t.tools := by
  refine Option.bind_congr fun other hother ↦ ?_
  rw [find?_conclude, if_neg]
  rintro rfl
  exact h hother

/-- If no two results name the same tool, each of them sends the notification of the entry that its
tool has had from the beginning. -/
theorem filter_isNotification_trace_results (t : Tracking) {results : List ToolResult}
    (h : (results.filterMap (·.id)).Nodup) :
    (t.trace (results.filterMap (·.cue? now))).filter Call.isNotification =
      if t.notifies then results.filterMap (·.notice? now t.tools) else [] := by
  induction results generalizing t with
  | nil => cases t.notifies <;> rfl
  | cons r rest ih =>
    have hrest : (rest.filterMap (·.id)).Nodup :=
      h.sublist ((List.sublist_cons_self r rest).filterMap _)
    cases hentry : r.entry? t.tools with
    | none =>
      have hnotice : r.notice? now t.tools = none := by
        rw [ToolResult.notice?, hentry, Option.map_none]
      rw [trace_results_of_entry?_eq_none now hentry, ih t hrest, List.filterMap_cons_none hnotice]
    | some i =>
      obtain ⟨id, hr, hi⟩ := ToolResult.exists_id_of_entry? hentry
      have hnotice :
          r.notice? now t.tools = some (.notify i.name (i.summary now (.ofResult r))) := by
        rw [ToolResult.notice?, hentry, Option.map_some]
      have hothers :
          ∀ r' ∈ rest, r'.notice? now (t.conclude id).tools = r'.notice? now t.tools := by
        intro r' hr'
        rw [List.filterMap_cons_some hr, List.nodup_cons] at h
        have hne : r'.id ≠ some id := fun hid ↦ h.1 (List.mem_filterMap.mpr ⟨r', hr', hid⟩)
        rw [ToolResult.notice?, ToolResult.notice?, entry?_conclude hne]
      have hnotifies : (t.conclude id).notifies = t.notifies :=
        step_notifies t (.result now id (.ofResult r))
      rw [trace_results_of_id_eq_some now hr, List.filter_append, ih _ hrest, hnotifies,
        List.filterMap_congr hothers, List.filterMap_cons_some hnotice, calls,
        filter_isNotification_concludeCalls hi]
      split <;> rfl

end Calls

end Tracking

/-- How many last lines results have between them: one, if any of them is matched while there is a
spinner, and otherwise none. -/
def Presenter.lastLines (p : Presenter) (results : List ToolResult) : Nat :=
  if p.spinner.isSome ∧ ∃ r ∈ results, (r.entry? p.tools).isSome then 1 else 0

theorem Presenter.lastLines_perm (p : Presenter) {results results' : List ToolResult}
    (h : results.Perm results') :
    p.lastLines results = p.lastLines results' := by
  simp only [lastLines, h.mem_iff]

namespace Stage

variable {World : Type} (d : Display World)

/-- Nothing but a message brings a tool to its end. -/
theorem finals_handle_withoutMessage (s : Stage World) (now : Nat) (c : Callback) :
    (s.handle d now c.withoutMessage).finals = s.finals := by
  have hresults : ∀ q ∈ c.withoutMessage.cues now, ∀ time id e, q ≠ .result time id e := by
    rintro q hq time id e rfl
    obtain ⟨-, r, hr, -⟩ := Callback.result_mem_cues_iff.mp hq
    cases hr
  rw [(follows_handle d s now _).finals_eq, Tracking.filter_isFinal_trace,
    Tracking.conclusions_eq_nil hresults, List.filterMap_nil, List.append_nil]

theorem follows_results (s : Stage World) (now : Nat) (results : List ToolResult) :
    Follows (results.filterMap (·.cue? now)) s (results.foldl (resolve d now) s) :=
  follows_foldl (fun s r ↦ follows_resolve d s now r) results s

/-- The presenter that takes some results gives them the last lines that they have between them. -/
theorem exists_finals_results (s : Stage World) (now : Nat) (results : List ToolResult) :
    ∃ lines, (results.foldl (resolve d now) s).finals = s.finals ++ lines ∧
      lines.length = s.presenter.lastLines results := by
  refine ⟨_, (follows_results d s now results).finals_eq, ?_⟩
  rw [Tracking.filter_isFinal_trace_results, Option.length_toList, Presenter.lastLines]
  refine if_congr ?_ rfl rfl
  change _ ↔ s.tracking.spinner.isSome ∧ ∃ r ∈ results, (r.entry? s.tracking.tools).isSome
  cases s.tracking.spinner with
  | none => simp
  | some n => simp [List.findSome?_isSome_iff, ToolResult.finalAct?]

/-- The blocks of a message of the user may come in any order.  The presenter is the same
afterwards.  In either order the results have the same number of last lines between them, which is
one if any of them is matched while there is a spinner when the message is taken, and otherwise
none.  If no two results name the same tool, the same notifications are sent, in whatever order. -/
theorem handle_of_perm (s : Stage World) (now : Nat) (c : Callback) {content content' : List Block}
    (h : content.Perm content') :
    let s₁ := s.handle d now (c.withMessage ⟨.user, content⟩)
    let s₂ := s.handle d now (c.withMessage ⟨.user, content'⟩)
    let results := (Message.mk .user content).results
    let expected := (s.handle d now c.withoutMessage).presenter.lastLines results
    s₁.presenter = s₂.presenter ∧
      (∃ lines, s₁.finals = s.finals ++ lines ∧ lines.length = expected) ∧
      (∃ lines, s₂.finals = s.finals ++ lines ∧ lines.length = expected) ∧
      ((results.filterMap (·.id)).Nodup → s₁.notifications.Perm s₂.notifications) := by
  intro s₁ s₂ results expected
  let m := s.handle d now c.withoutMessage
  have hresults : results.Perm (Message.mk .user content').results := h.filterMap _
  -- Both go on from the same stage, and differ only in the order of the results that they take
  -- there.
  have h₁ : Follows (results.filterMap (·.cue? now)) m s₁ := follows_results d m now results
  have h₂ : Follows ((Message.mk .user content').results.filterMap (·.cue? now)) m s₂ :=
    follows_results d m now _
  have hspares := spares_foldl d (fun s r ↦ spares_resolve d s now r)
  refine ⟨?_, ?_, ?_, fun hids ↦ ?_⟩
  · have htracking : s₁.tracking = s₂.tracking := by
      rw [h₁.tracking, h₂.tracking, Tracking.play_results_perm hresults]
    exact presenter_eq_of_tracking_eq htracking
      ((hspares results m).indicator.trans (hspares _ m).indicator.symm)
  · rw [← finals_handle_withoutMessage d s now c]
    exact exists_finals_results d m now results
  · have hexpected : expected = m.presenter.lastLines (Message.mk .user content').results :=
      m.presenter.lastLines_perm hresults
    rw [← finals_handle_withoutMessage d s now c, hexpected]
    exact exists_finals_results d m now _
  · rw [h₁.notifications_eq, h₂.notifications_eq,
      Tracking.filter_isNotification_trace_results now _ hids,
      Tracking.filter_isNotification_trace_results now _ ((hresults.filterMap _).nodup hids)]
    refine List.Perm.append_left _ ?_
    split
    · exact hresults.filterMap _
    · exact .rfl

/-- Two tools run at the same time, and a message brings the results of both, and one of a tool that
is not tracked.  In either order one of them has a last line and both send a notification, but not
the same one first. -/
theorem handle_of_perm_of_two_tools :
    let s := Stage.run .always [⟨0, .ofInput "A" "shell" "a"⟩,
      ⟨1000000000, .ofInput "B" "editor" "b"⟩]
      (.enter (.new true) 0 ())
    let content := [Block.ofResult "A" .success, .ofResult "C" .success, .ofResult "B" .error]
    let content' := [Block.ofResult "B" .error, .ofResult "C" .success, .ofResult "A" .success]
    let s₁ := s.handle .always 2000000000 (Callback.empty.withMessage ⟨.user, content⟩)
    let s₂ := s.handle .always 2000000000 (Callback.empty.withMessage ⟨.user, content'⟩)
    content.Perm content' ∧ s₁.presenter = s₂.presenter ∧ s₁.finals.length = 1 ∧
      s₂.finals.length = 1 ∧
      s₁.notifications.Perm s₂.notifications ∧
      (∃ text rest, s₁.notifications = .notify "shell" text :: rest) ∧
      ∃ text rest, s₂.notifications = .notify "editor" text :: rest := by
  intro s content content' s₁ s₂
  have hperm : content.Perm content' := content.reverse_perm.symm
  obtain ⟨hpresenter, ⟨lines, h₁, hlines⟩, ⟨lines', h₂, hlines'⟩, hnotifications⟩ :=
    handle_of_perm .always s 2000000000 .empty hperm
  have hnone : s.finals = [] := rfl
  have hfirst : s₁.finals.length = 1 := by
    rw [h₁, hnone, List.nil_append, hlines]
    decide
  have hsecond : s₂.finals.length = 1 := by
    rw [h₂, hnone, List.nil_append, hlines']
    decide
  exact ⟨hperm, hpresenter, hfirst, hsecond, hnotifications (by decide),
    ⟨_, _, rfl⟩, ⟨_, _, rfl⟩⟩

end Stage

end AgentConsole
