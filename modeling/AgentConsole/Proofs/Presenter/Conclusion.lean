import AgentConsole.Proofs.Presenter.Coherence
import AgentConsole.Proofs.Presenter.Outcomes
import Mathlib.Data.List.Induction

/-!
# Conclusions

A result whose tool is tracked concludes the tool.  The presenter lets go of the entry, and says how
the tool has ended in a last line on the spinner at hand.  There is one spinner for all tools, and
with the result of any of them it is let go.  So a line is missing when two tools are concluded
without input in between, and that is the only case in which one is.

* `Tracking.conclusions` : the conclusions of a list of cues, in order.
* `Tracking.Engaged` : there has been input, and no conclusion since.
* `Stage.finals_run` : the last lines of a run, and which conclusions have one.
-/

namespace AgentConsole

/-- Whether an act is the last of a spinner. -/
def SpinnerAct.isFinal : SpinnerAct → Bool
  | .succeed _ | .fail _ => true
  | .start _ | .update _ | .info _ | .stop => false

@[simp] theorem Stage.finalAct_isFinal (e : Ending) (summary : String) :
    (finalAct e summary).isFinal = true := by
  cases e <;> rfl

/-- Whether a call leaves the last line of a spinner. -/
def Call.isFinal : Call → Bool
  | .spinner _ act => act.isFinal
  | _ => false

theorem Call.isSteady_of_isFinal {c : Call} (h : c.isFinal = true) : c.isSteady = true := by
  cases c with
  | spinner n act => rfl
  | _ => simp [isFinal] at h

/-- The end of a tracked tool. -/
structure Conclusion where
  id : ToolId
  /-- The entry of the tool. -/
  invocation : Invocation
  ending : Ending
  time : Nat
  /-- The spinner at hand. -/
  spinner : Option Nat

namespace Conclusion

/-- The line that sums up the tool. -/
def summary (x : Conclusion) : String := x.invocation.summary x.time x.ending

/-- The last call for the tool, where there is a spinner. -/
def final? (x : Conclusion) : Option Call :=
  x.spinner.map (.spinner · (Stage.finalAct x.ending x.summary))

end Conclusion

namespace Tracking

/-- The conclusion that a cue brings: it is a result, and its tool has an entry. -/
def conclusion? (t : Tracking) : Cue → Option Conclusion
  | .result now id e => (t.tools.find? id).map fun i ↦ ⟨id, i, e, now, t.spinner⟩
  | .indicate _ | .write _ _ _ | .throttle _ _ | .halt | .input _ _ | .announce _ => none

/-- A conclusion is put on the spinner at hand. -/
theorem conclusion?_spinner {t : Tracking} {q : Cue} {x : Conclusion}
    (h : t.conclusion? q = some x) : x.spinner = t.spinner := by
  cases q with
  | result now id e =>
    obtain ⟨i, -, rfl⟩ := Option.map_eq_some_iff.mp h
    rfl
  | _ => cases h

/-- The conclusions of a list of cues, in order. -/
def conclusions : List Cue → Tracking → List Conclusion
  | [], _ => []
  | q :: rest, t => (t.conclusion? q).toList ++ (t.step q).conclusions rest

@[simp] theorem conclusions_nil (t : Tracking) : t.conclusions [] = [] := rfl

@[simp] theorem conclusions_cons (t : Tracking) (q : Cue) (rest : List Cue) :
    t.conclusions (q :: rest) = (t.conclusion? q).toList ++ (t.step q).conclusions rest := rfl

theorem conclusions_append (t : Tracking) (front rest : List Cue) :
    t.conclusions (front ++ rest) = t.conclusions front ++ (t.play front).conclusions rest := by
  induction front generalizing t with
  | nil => rfl
  | cons q front ih => simp [ih]

/-- Without results there are no conclusions. -/
theorem conclusions_eq_nil {cues : List Cue}
    (h : ∀ q ∈ cues, ∀ now id e, q ≠ .result now id e) (t : Tracking) :
    t.conclusions cues = [] := by
  induction cues generalizing t with
  | nil => rfl
  | cons q rest ih =>
    have hq : t.conclusion? q = none := by
      cases q with
      | result now id e => exact absurd rfl (h _ List.mem_cons_self now id e)
      | _ => rfl
    rw [conclusions_cons, hq, ih fun p hp ↦ h p (List.mem_cons_of_mem q hp)]
    rfl

/-! ## Last lines -/

theorem filter_isFinal_spinnerCalls (t : Tracking) (act : SpinnerAct) :
    (t.spinnerCalls act).filter Call.isFinal = if act.isFinal then t.spinnerCalls act else [] := by
  unfold spinnerCalls
  cases t.spinner <;> cases h : act.isFinal <;> simp [Call.isFinal, h]

theorem filter_isFinal_turnCalls (t : Tracking) (u : ToolInput) :
    (t.turnCalls u).filter Call.isFinal = [] := by
  unfold turnCalls
  split
  · rfl
  · rw [List.filter_append, filter_isFinal_spinnerCalls]
    rfl

theorem filter_isFinal_observeCalls (t : Tracking) (u : ToolInput) :
    (t.observeCalls u).filter Call.isFinal = [] := by
  unfold observeCalls
  split
  · rfl
  · split
    · rw [filter_isFinal_spinnerCalls]
      rfl
    · rfl

theorem filter_isFinal_concludeCalls (t : Tracking) (now : Nat) (id : ToolId) (e : Ending) :
    (t.concludeCalls now id e).filter Call.isFinal =
      ((t.conclusion? (.result now id e)).bind Conclusion.final?).toList := by
  simp only [concludeCalls, conclusion?]
  cases t.tools.find? id with
  | none => rfl
  | some i =>
    have hnotify : (if t.notifies then [Call.notify i.name (i.summary now e)] else []).filter
        Call.isFinal = [] := by
      split <;> rfl
    simp only [List.filter_append, filter_isFinal_spinnerCalls, Stage.finalAct_isFinal, hnotify]
    simp [spinnerCalls, Conclusion.final?, Conclusion.summary]

/-- The only last line of a cue is that of its conclusion. -/
theorem filter_isFinal_calls (t : Tracking) (q : Cue) :
    (t.calls q).filter Call.isFinal = ((t.conclusion? q).bind Conclusion.final?).toList := by
  cases q with
  | indicate console => rfl
  | write kind text endLine => rfl
  | throttle console delay =>
    rw [calls, List.filter_append, filter_isFinal_spinnerCalls]
    rfl
  | halt => exact filter_isFinal_spinnerCalls t .stop
  | input now u =>
    rw [calls, List.filter_append, filter_isFinal_turnCalls, filter_isFinal_observeCalls]
    rfl
  | announce name => exact filter_isFinal_spinnerCalls t _
  | result now id e => exact filter_isFinal_concludeCalls t now id e

/-- The last lines of a list of cues are those of its conclusions. -/
theorem filter_isFinal_trace (t : Tracking) (cues : List Cue) :
    (t.trace cues).filter Call.isFinal = (t.conclusions cues).filterMap Conclusion.final? := by
  induction cues generalizing t with
  | nil => rfl
  | cons q rest ih =>
    rw [trace_cons, List.filter_append, ih, filter_isFinal_calls, conclusions_cons,
      List.filterMap_append]
    cases t.conclusion? q with
    | none => rfl
    | some x => cases hx : x.final? <;> simp [hx]

/-! ## Which conclusions have a last line -/

/-- After a list of cues a presenter is engaged with a tool: there has been input, and no conclusion
since. -/
def Engaged (t : Tracking) (cues : List Cue) : Prop :=
  ∃ before now u after, cues = before ++ .input now u :: after ∧
    (t.play (before ++ [.input now u])).conclusions after = []

theorem not_engaged_nil (t : Tracking) : ¬ t.Engaged [] := by
  rintro ⟨before, now, u, after, h, -⟩
  simp at h

theorem engaged_append_singleton_iff {t : Tracking} {cues : List Cue} {q : Cue} :
    t.Engaged (cues ++ [q]) ↔
      (∃ now u, q = .input now u) ∨ t.Engaged cues ∧ (t.play cues).conclusion? q = none := by
  constructor
  · rintro ⟨before, now, u, after, hcues, hnone⟩
    -- The last cue is either the input itself or one of those that come after it.
    rcases List.eq_nil_or_concat after with rfl | ⟨after, last, rfl⟩
    · obtain ⟨-, hq⟩ := List.append_inj' hcues rfl
      exact .inl ⟨now, u, List.singleton_inj.mp hq⟩
    · have hsplit : cues ++ [q] = (before ++ .input now u :: after) ++ [last] := by
        simpa using hcues
      obtain ⟨rfl, hq⟩ := List.append_inj' hsplit rfl
      obtain rfl := List.singleton_inj.mp hq
      rw [List.concat_eq_append, conclusions_append, List.append_eq_nil_iff] at hnone
      refine .inr ⟨⟨before, now, u, after, rfl, hnone.1⟩, ?_⟩
      have hlast := hnone.2
      rw [← play_append] at hlast
      simpa using hlast
  · rintro (⟨now, u, rfl⟩ | ⟨⟨before, now, u, after, rfl, hnone⟩, hq⟩)
    · exact ⟨cues, now, u, [], rfl, rfl⟩
    · refine ⟨before, now, u, after ++ [q], by simp, ?_⟩
      rw [conclusions_append, hnone, ← play_append]
      simpa using hq

/-- A spinner is at hand after a cue if the cue is input, or if there was one and nothing was
concluded. -/
theorem Coherent.spinner_step_iff {t : Tracking} (h : t.Coherent) (q : Cue) :
    (t.step q).spinner.isSome ↔
      (∃ now u, q = .input now u) ∨ t.spinner.isSome ∧ t.conclusion? q = none := by
  cases q with
  | input now u => simp [h.held_step_input now u]
  | result now id e =>
    simp only [Tracking.step, conclude, conclusion?]
    cases t.tools.find? id <;> simp
  | _ => simp [Tracking.step, conclusion?]

/-- A spinner is at hand exactly while the presenter is engaged. -/
theorem Coherent.spinner_play_iff {t : Tracking} (h : t.Coherent) (hnone : t.spinner = none)
    (cues : List Cue) : (t.play cues).spinner.isSome ↔ t.Engaged cues := by
  -- From the end, as the spinner after the last cue depends on that before it.
  induction cues using List.reverseRecOn with
  | nil => simp [hnone, not_engaged_nil]
  | append_singleton cues q ih =>
    rw [play_append, play_cons, play_nil, (h.play cues).spinner_step_iff, ih,
      engaged_append_singleton_iff]

end Tracking

namespace Stage

variable {World : Type}

/-- The last lines so far. -/
def finals (s : Stage World) : List Call := s.calls.filter Call.isFinal

/-- Between two stages each conclusion leaves its last line, if it has one. -/
theorem Follows.finals_eq {cues : List Cue} {s s' : Stage World} (h : Follows cues s s') :
    s'.finals = s.finals ++ (s.tracking.trace cues).filter Call.isFinal := by
  have hfinals (s : Stage World) : s.finals = s.steadyCalls.filter Call.isFinal :=
    filter_calls (fun _ ↦ Call.isSteady_of_isFinal) s
  rw [hfinals, h.steadyCalls, List.filter_append, ← hfinals]

/-- The last lines of a run of a new presenter are those of its conclusions, each with the summary
of its own tool.  A conclusion has its line, one and no more, if and only if the presenter is
engaged with some tool at that moment; otherwise it has none. -/
theorem finals_run (d : Display World) (deliveries : List Delivery) (notifies : Bool)
    (opened : Nat) (w : World) :
    let t := Tracking.new notifies opened
    let cues := deliveries.flatMap Delivery.cues
    let s := Stage.run d deliveries (.enter (.new notifies) opened w)
    s.finals = (t.conclusions cues).filterMap Conclusion.final? ∧
      ∀ front q rest x, cues = front ++ q :: rest → (t.play front).conclusion? q = some x →
        s.finals = (t.conclusions front).filterMap Conclusion.final? ++ x.final?.toList ++
          (((t.play front).step q).conclusions rest).filterMap Conclusion.final? ∧
        (x.final?.isSome ↔ t.Engaged front) := by
  intro t cues s
  have hfollows := follows_run d deliveries (.enter (.new notifies) opened w)
  have hfinals : s.finals = (t.conclusions cues).filterMap Conclusion.final? := by
    rw [finals, filter_calls (fun _ ↦ Call.isSteady_of_isFinal), hfollows.steadyCalls]
    exact Tracking.filter_isFinal_trace t cues
  refine ⟨hfinals, fun front q rest x hcues hx ↦ ⟨?_, ?_⟩⟩
  · rw [hfinals, hcues, Tracking.conclusions_append, Tracking.conclusions_cons, hx]
    cases hline : x.final? <;> simp [hline]
  · have hspinner := (Tracking.coherent_new notifies opened).spinner_play_iff rfl front
    rw [← hspinner, ← Tracking.conclusion?_spinner hx, Conclusion.final?, Option.isSome_map]

/-- Two tools run at the same time, and their results come in one message.  Both are concluded, but
the second one has no last line. -/
theorem finals_of_two_results :
    let deliveries :=
      [⟨0, .ofInput "A" "shell" "a"⟩, ⟨1000000000, .ofInput "B" "editor" "b"⟩,
      ⟨2000000000, .ofResults ["A", "B"]⟩]
    let conclusions := (Tracking.new true 0).conclusions (deliveries.flatMap Delivery.cues)
    let s := Stage.run .always deliveries (.enter (.new true) 0 ())
    conclusions.map (fun x ↦ (x.id, x.final?.isSome)) = [("A", true), ("B", false)] ∧
      s.finals.length = 1 ∧ s.notifications.length = 2 := by
  decide

end Stage

end AgentConsole
