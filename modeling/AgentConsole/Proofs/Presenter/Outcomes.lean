import AgentConsole.Proofs.Presenter.Performance

/-!
# Outcomes of calls

How a call ends decides whether an indicator is held, and with that whether it is updated and
stopped.  Nothing else that a presenter does hangs on it: two runs over the same callbacks, on
whatever displays, track the same and make the same steady calls.
-/

namespace AgentConsole

/-- Whether a call sends a notification. -/
def Call.isNotification : Call → Bool
  | .notify _ _ => true
  | _ => false

theorem Call.isSteady_of_isNotification {c : Call} (h : c.isNotification = true) :
    c.isSteady = true := by
  cases c with
  | notify title message => rfl
  | _ => simp [isNotification] at h

namespace Stage

variable {World World₁ World₂ : Type}

/-- The notifications sent so far. -/
def notifications (s : Stage World) : List Call := s.calls.filter Call.isNotification

theorem notifications_eq (s : Stage World) :
    s.notifications = s.steadyCalls.filter Call.isNotification :=
  filter_calls (fun _ ↦ Call.isSteady_of_isNotification) s

/-- What is sent between two stages hangs on the cues alone. -/
theorem Follows.notifications_eq {cues : List Cue} {s s' : Stage World} (h : Follows cues s s') :
    s'.notifications = s.notifications ++ (s.tracking.trace cues).filter Call.isNotification := by
  rw [Stage.notifications_eq, h.steadyCalls, List.filter_append, ← Stage.notifications_eq]

/-- However the calls of two runs end, after any number of callbacks the presenters track the same
tools, hold a spinner for the same one, and have made the same calls, but for updates and stops of
indicators. -/
theorem run_eq_of_outcomes (d₁ : Display World₁) (d₂ : Display World₂) (p : Presenter)
    (opened : Nat) (w₁ : World₁) (w₂ : World₂) (deliveries : List Delivery) (n : Nat) :
    let s₁ := Stage.run d₁ (deliveries.take n) (.enter p opened w₁)
    let s₂ := Stage.run d₂ (deliveries.take n) (.enter p opened w₂)
    s₁.presenter.current = s₂.presenter.current ∧
      s₁.presenter.tools = s₂.presenter.tools ∧
      s₁.presenter.spinner.isSome = s₂.presenter.spinner.isSome ∧
      s₁.notifications = s₂.notifications ∧
      s₁.steadyCalls = s₂.steadyCalls := by
  intro s₁ s₂
  have h₁ := follows_run d₁ (deliveries.take n) (.enter p opened w₁)
  have h₂ := follows_run d₂ (deliveries.take n) (.enter p opened w₂)
  have htrack : s₁.tracking = s₂.tracking := h₁.tracking.trans h₂.tracking.symm
  have hsteady : s₁.steadyCalls = s₂.steadyCalls := h₁.steadyCalls.trans h₂.steadyCalls.symm
  refine ⟨congrArg Tracking.current htrack, congrArg Tracking.tools htrack,
    congrArg (·.spinner.isSome) htrack, ?_, hsteady⟩
  rw [notifications_eq, notifications_eq, hsteady]

end Stage

end AgentConsole
