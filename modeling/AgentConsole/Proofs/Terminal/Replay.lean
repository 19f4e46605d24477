import AgentConsole.Program.Replay
import AgentConsole.Proofs.Callback.Source
import AgentConsole.Proofs.Presenter.View

/-!
# A replay as a run

A replay shows the callbacks of a session one by one, and after each of them takes away what has
been written.  But what a terminal has been written to before makes no difference to it, so taking
the output away does not either: the pieces of a replay, put together, are what a single run over
the callbacks writes, and the replay comes to the stage of that run.

* `Terminal.display_seenThrough_behind` : earlier output makes no difference.
* `Replay.Completes` : a replay that has come to the end of a run.
* `Replay.completes_run` : every replay of a session that is text comes to its end.
-/

namespace AgentConsole

/-! ## Earlier output -/

namespace Terminal

/-- A terminal with some output before its own. -/
def behind (output : String × String) (t : Terminal) : Terminal :=
  { t with stdout := output.1 ++ t.stdout, stderr := output.2 ++ t.stderr }

theorem behind_take (t : Terminal) : t.take.2.behind t.take.1 = t := by
  simp [take, behind]

variable (output : String × String) (t : Terminal)

@[simp] theorem behind_hidden : (t.behind output).hidden = t.hidden := rfl

@[simp] theorem behind_claimed : (t.behind output).claimed = t.claimed := rfl

@[simp] theorem behind_indicators : (t.behind output).indicators = t.indicators := rfl

@[simp] theorem behind_spinners : (t.behind output).spinners = t.spinners := rfl

theorem write_behind (console : Console) (text : String) :
    (t.behind output).write console text = (t.write console text).behind output := by
  cases console with
  | stdout => simp [write, behind, String.append_assoc]
  | stderr => simp [write, behind, String.append_assoc]

theorem startIndicator_behind (n : Nat) :
    (t.behind output).startIndicator n =
      ((t.startIndicator n).1, (t.startIndicator n).2.behind output) := by
  unfold startIndicator
  rw [behind_indicators, behind_claimed]
  split
  · rfl
  · split
    · rfl
    · rfl

theorem stopIndicator_behind (n : Nat) :
    (t.behind output).stopIndicator n = (t.stopIndicator n).behind output := by
  unfold stopIndicator
  rw [behind_indicators]
  split
  · rfl
  · rfl

theorem startSpinner_behind (n : Nat) :
    (t.behind output).startSpinner n = (t.startSpinner n).behind output := by
  unfold startSpinner
  rw [behind_spinners, behind_hidden, write_behind, ← apply_ite (behind output)]
  split
  · rfl
  · rfl

theorem finishSpinner_behind (n : Nat) (line : String) :
    (t.behind output).finishSpinner n line = (t.finishSpinner n line).behind output := by
  have hstop : (t.behind output).stopSpinner n = (t.stopSpinner n).behind output := rfl
  unfold finishSpinner
  dsimp only
  rw [hstop, behind_hidden, write_behind, ← apply_ite (behind output)]

/-- What has been written before shows neither in what a call writes nor in how it ends. -/
theorem display_seenThrough_behind : display.SeenThrough (behind output) display := by
  intro c t
  cases c with
  | openIndicator n console | openSpinner n => rfl
  | indicator n act =>
    cases act with
    | start label => exact startIndicator_behind output t n
    | update label => rfl
    | stop => exact congrArg (Prod.mk Outcome.ok) (stopIndicator_behind output t n)
  | spinner n act =>
    refine congrArg (Prod.mk Outcome.ok) ?_
    cases act with
    | start label => exact startSpinner_behind output t n
    | update label | stop => rfl
    | succeed label | fail label | info label => exact finishSpinner_behind output t n _
  | stream kind text endLine | notify title message | throttle console delay =>
    exact congrArg (Prod.mk Outcome.ok) (write_behind output t _ _)

end Terminal

/-- A callback that forces a stop and carries nothing else. -/
def Callback.bareStop : Callback := { Callback.empty with forceStop := true }

namespace Replay

/-! ## The course of a replay -/

/-- What a replay delivers after so many callbacks: each callback comes one pause after the one
before it. -/
def deliveriesFrom (m : Manner) (count : Nat) (cs : List Callback) : List Delivery :=
  (cs.zipIdx count).map fun x ↦ ⟨x.2 * m.pace * 1000000, x.1⟩

/-- A replay has come to the end of a run, which has left the given stage: its pieces are what the
run has written, with the farewell behind it. -/
structure Completes (m : Manner) (course : Course) (last : Stage Terminal) : Prop where
  error : course.error = none
  stage : course.stage = { last with world := { last.world with stdout := "", stderr := "" } }
  stdout : String.join (course.pieces.map (·.stdout)) = last.world.stdout ++ farewell m
  stderr : String.join (course.pieces.map (·.stderr)) = last.world.stderr

variable {m : Manner} {readings : List CallbackSource.Reading} {count : Nat} {s : Stage Terminal}

/-- The stage after a callback is that after the output has been taken away, but for the output. -/
theorem handle_eq_view (m : Manner) (count : Nat) (c : Callback) (s : Stage Terminal) :
    let delivered := deliver m count c s
    s.handle Terminal.display (timeAfter m count) c =
      delivered.2.view (Terminal.behind delivered.1) := by
  intro delivered
  have hworld := (s.handle Terminal.display (timeAfter m count) c).world.behind_take
  exact congrArg (fun world ↦ { s.handle Terminal.display (timeAfter m count) c with world })
    hworld.symm

/-- The output of the first callback goes before that of the others. -/
theorem Completes.cons {course : Course} {last : Stage Terminal} (h : Completes m course last)
    (output : String × String) (pause : Nat) :
    Completes m { course with pieces := ⟨output.1, output.2, pause⟩ :: course.pieces }
      (last.view (Terminal.behind output)) where
  error := h.error
  stage := h.stage
  stdout := by
    rw [List.map_cons, String.join_cons, h.stdout, ← String.append_assoc]
    rfl
  stderr := by
    rw [List.map_cons, String.join_cons, h.stderr]
    rfl

/-- A replay of callbacks up to their end is a run over them and the callback that ends it. -/
theorem completes_proceed {cs : List Callback} (m : Manner) (count : Nat) (s : Stage Terminal)
    (h : readings.map (·.result) = cs.map .callback ++ [.finished]) :
    Completes m (proceed m count s readings)
      (Stage.run Terminal.display (deliveriesFrom m count (cs ++ [.bareStop])) s) := by
  induction cs generalizing readings count s with
  | nil =>
    obtain ⟨reading, rfl, hreading⟩ := List.map_eq_singleton_iff.mp h
    have hjoin (text : String) : String.join [text] = text := by
      rw [String.join_cons, String.join_nil, String.append_empty]
    rw [proceed, hreading]
    exact ⟨rfl, rfl, hjoin _, hjoin _⟩
  | cons c cs ih =>
    obtain ⟨reading, rest, rfl, hreading, hrest⟩ := List.map_eq_cons_iff.mp h
    have hrun := (Terminal.display_seenThrough_behind (deliver m count c s).1).run
      (deliveriesFrom m (count + 1) (cs ++ [.bareStop])) (deliver m count c s).2
    rw [← handle_eq_view] at hrun
    rw [proceed, hreading]
    exact hrun ▸ (ih (count + 1) (deliver m count c s).2 hrest).cons _ _

/-- A replay breaks off where no callback comes, and the session has not come to its end. -/
theorem error_proceed_of_invalid {cs : List Callback} (m : Manner) (count : Nat)
    (s : Stage Terminal) (h : readings.map (·.result) = cs.map .callback ++ [.invalid]) :
    (proceed m count s readings).error ≠ none := by
  induction cs generalizing readings count s with
  | nil =>
    obtain ⟨reading, rfl, hreading⟩ := List.map_eq_singleton_iff.mp h
    rw [proceed, hreading]
    nofun
  | cons c cs ih =>
    obtain ⟨reading, rest, rfl, hreading, hrest⟩ := List.map_eq_cons_iff.mp h
    rw [proceed, hreading]
    exact ih (count + 1) (deliver m count c s).2 hrest

/-! ## Sessions -/

open CallbackSource

/-- A session whose lines are all text is replayed to its end. -/
theorem completes_run (m : Manner) {session : Bytes}
    (h : ∀ l ∈ Text.splitLines 10 13 session, contentOf l ≠ .invalid) :
    let callbacks := (Text.splitLines 10 13 session).filterMap callback? ++ [.bareStop]
    Completes m (run m session)
      (Stage.run Terminal.display (deliveriesFrom m 0 callbacks) (start m)) :=
  completes_proceed m 0 (start m)
    ((results_readings_ofBytes session).trans (told_of_forall_ne_invalid h))

theorem error_run_eq_none_iff (m : Manner) (session : Bytes) :
    (run m session).error = none ↔
      ∀ l ∈ Text.splitLines 10 13 session, contentOf l ≠ .invalid := by
  constructor
  · intro herror
    refine Classical.byContradiction fun hinvalid ↦ ?_
    obtain ⟨cs, hcs⟩ := exists_told_eq_of_invalid hinvalid
    exact error_proceed_of_invalid m 0 (start m)
      ((results_readings_ofBytes session).trans hcs) herror
  · exact fun h ↦ (completes_run m h).error

end Replay

end AgentConsole
