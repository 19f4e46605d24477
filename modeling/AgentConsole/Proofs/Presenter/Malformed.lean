import AgentConsole.Proofs.Presenter.Repetition
import AgentConsole.Proofs.Presenter.Thinking
import AgentConsole.Proofs.Presenter.Matching

/-!
# Payloads of the wrong shape

The message of a callback and its tool may have the wrong shape.  Then they are skipped, and the
rest of the callback is handled as if they had not been there.  This is all there is to say of a
message.  A tool of the wrong shape is still a sign that a tool is at work, so it does one thing
that no tool would not do: it puts an end to the indicator that is held (`Callback.concernsTool`).
As this comes first of all, the callback is handled as one without a tool by a presenter that has
dropped its indicator (`Stage.exists_handle_of_malformed_tool`), and the two differ in nothing but
indicators (`Stage.handle_of_malformed`).
-/

namespace AgentConsole

namespace Callback

variable {c : Callback} {raw : Json}

/-- A tool of the wrong shape brings no input. -/
theorem cues_withoutTool_of_malformed (h : c.tool = some (.malformed raw)) (now : Nat) :
    c.withoutTool.cues now = c.cues now := by
  have hinput : c.inputCues now = c.withoutTool.inputCues now := by
    simp [inputCues, input?, withoutTool, h]
  rw [cues, cues, hinput]
  rfl

/-- It takes the indicator away. -/
theorem concernsTool_of_malformed (h : c.tool = some (.malformed raw)) (hraw : raw.isNull = false) :
    c.concernsTool = true := by
  simp [concernsTool, h, hraw]

/-- Where the indicator has been taken away, one can be held only if another one has been shown. -/
theorem initLoop_of_thinks {held : Bool} (htakes : c.takesOver = true) (h : c.thinks held = true) :
    c.initLoop = true ∧ c.forceStop = false := by
  simpa [thinks, htakes, and_comm] using h

end Callback

namespace Stage

variable {World : Type} (d : Display World) {c : Callback} {raw : Json}

/-- A message of the wrong shape is remarked, and that is all. -/
theorem handle_of_malformed_message (h : c.message = some (.malformed raw))
    (s : Stage World) (now : Nat) :
    s.handle d now c = (s.handle d now c.withoutMessage).remark (.malformedMessage raw) := by
  rw [handle_eq_followMessage, followMessage, h]

/-- With a tool of the wrong shape the stage is made ready as it is without a tool once the
indicator has been dropped. -/
theorem prepare_of_malformed_tool (h : c.tool = some (.malformed raw)) (hraw : raw.isNull = false)
    (s : Stage World) : s.prepare d c = (s.dropIndicator d).prepare d c.withoutTool := by
  have hconcerns := Callback.concernsTool_of_malformed h hraw
  have hnone : c.withoutTool.concernsTool = false := rfl
  -- To drop the indicator a second time changes nothing.
  have hdrop := dropIndicator_of_idle d (dropIndicator_indicator d s)
  have hcycle : s.cycleIndicator d c = (s.dropIndicator d).cycleIndicator d c.withoutTool := by
    simp only [cycleIndicator, hconcerns, hnone, hdrop, Bool.or_true, Bool.or_false,
      if_true, ite_self]
    rfl
  rw [prepare, prepare, hcycle]
  rfl

/-- A callback with a tool of the wrong shape is handled, but for the remarks, as one without a tool
by a presenter that has dropped its indicator. -/
theorem exists_handle_of_malformed_tool (h : c.tool = some (.malformed raw))
    (hraw : raw.isNull = false) (s : Stage World) (now : Nat) :
    ∃ remarks, s.handle d now c =
      { (s.dropIndicator d).handle d now c.withoutTool with remarks } := by
  have hprepare := prepare_of_malformed_tool d h hraw s
  have htool (m : Stage World) : m.followTool d now c = m.remark (.malformedTool raw) := by
    rw [followTool, h]
  rw [handle_eq_present, handle_eq_present, hprepare, present, present, htool]
  -- All that is left is the message, which both find on the same stage but for the remark.
  exact (spares_followMessage d _ now c).eq_of_follows (follows_followMessage d _ now c)
    (spares_followMessage d _ now c) (follows_followMessage d _ now c) ⟨_, rfl⟩

/-- A callback with a message of the wrong shape is handled as without the message, but for a
remark.

A callback with a tool of the wrong shape is handled, but for the remarks, as without the tool after
the indicator has been dropped.  Compared with the callback without the tool on the same stage, the
presenter tracks the same tools, has the same current one, holds the same spinner and has made the
same calls, but for updates and stops of indicators.  Afterwards it holds an indicator only if the
callback itself starts an event loop, and forces no stop. -/
theorem handle_of_malformed (s : Stage World) (now : Nat) (c : Callback) :
    (∀ raw, c.message = some (.malformed raw) →
      s.handle d now c = (s.handle d now c.withoutMessage).remark (.malformedMessage raw)) ∧
    ∀ raw, c.tool = some (.malformed raw) → raw.isNull = false →
      let s₁ := s.handle d now c
      let s₂ := s.handle d now c.withoutTool
      (∃ remarks, s₁ = { (s.dropIndicator d).handle d now c.withoutTool with remarks }) ∧
        s₁.presenter.current = s₂.presenter.current ∧
        s₁.presenter.tools = s₂.presenter.tools ∧
        s₁.presenter.spinner = s₂.presenter.spinner ∧
        s₁.notifications = s₂.notifications ∧
        s₁.steadyCalls = s₂.steadyCalls ∧
        (s₁.presenter.indicator.isSome = true → c.initLoop = true ∧ c.forceStop = false) := by
  refine ⟨fun raw h ↦ handle_of_malformed_message d h s now, fun raw h hraw ↦ ?_⟩
  intro s₁ s₂
  have h₁ := follows_handle d s now c
  have h₂ := follows_handle d s now c.withoutTool
  rw [Callback.cues_withoutTool_of_malformed h] at h₂
  have htracking : s₁.tracking = s₂.tracking := h₁.tracking.trans h₂.tracking.symm
  have hsteady : s₁.steadyCalls = s₂.steadyCalls := h₁.steadyCalls.trans h₂.steadyCalls.symm
  have htakes : c.takesOver = true := by
    rw [Callback.takesOver, Callback.concernsTool_of_malformed h hraw, Bool.or_true]
  refine ⟨exists_handle_of_malformed_tool d h hraw s now, congrArg Tracking.current htracking,
    congrArg Tracking.tools htracking, congrArg Tracking.spinner htracking, ?_, hsteady,
    fun hheld ↦ ?_⟩
  · rw [notifications_eq, notifications_eq, hsteady]
  · exact Callback.initLoop_of_thinks htakes (thinks_of_isSome_handle d hheld)

/-- While an indicator is held and a tool is current, a callback comes with a message and a tool of
the wrong shape.  Without the tool the indicator would still be held. -/
theorem handle_of_malformed_under_indicator :
    let s := Stage.run .always [⟨0, .ofInput "A" "shell" "ab"⟩,
      ⟨1, { Callback.empty with initLoop := true }⟩]
      (.enter (.new true) 0 ())
    let c : Callback := { Callback.empty with
      startLoop := true
      message := some (.malformed (.string "oops"))
      tool := some (.malformed (.string "shell")) }
    let s₁ := s.handle .always 2 c
    let s₂ := s.handle .always 2 c.withoutTool
    s₁ = (s.handle .always 2 c.withoutMessage).remark (.malformedMessage (.string "oops")) ∧
      s₁.presenter.current = s₂.presenter.current ∧ s₁.steadyCalls = s₂.steadyCalls ∧
      s₁.presenter.indicator.isSome = false ∧ s₂.presenter.indicator = some 2 := by
  intro s c s₁ s₂
  obtain ⟨hmessage, htool⟩ := handle_of_malformed .always s 2 c
  obtain ⟨-, hcurrent, -, -, -, hsteady, hheld⟩ := htool (.string "shell") rfl rfl
  refine ⟨hmessage _ rfl, hcurrent, hsteady, Bool.eq_false_iff.mpr fun h ↦ ?_, rfl⟩
  have hinit : c.initLoop = true := (hheld h).1
  cases hinit

end Stage

end AgentConsole
