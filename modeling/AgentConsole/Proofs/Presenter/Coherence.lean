import AgentConsole.Proofs.Presenter.Performance

/-!
# Coherence of what is tracked

The spinner at hand, the current tool and the entries of the running tools are changed in different
places, but belong together: a spinner is held for the current tool, and that tool has an entry.  In
an entry some input has been seen.  Every cue keeps this, so it holds in every state that a
presenter can reach (`Stage.run_coherent`).
-/

namespace AgentConsole

theorem Tools.mem_insert_iff {tools : Tools} {id : ToolId} {i : Invocation}
    {e : ToolId × Invocation} :
    e ∈ tools.insert id i ↔ e = (id, i) ∨ e ∈ tools ∧ e.1 ≠ id := by
  simp [Tools.insert, Tools.erase]

theorem Tools.mem_of_mem_erase {tools : Tools} {id : ToolId} {e : ToolId × Invocation}
    (h : e ∈ tools.erase id) : e ∈ tools := (List.mem_filter.mp h).1

namespace Tracking

/-- What is tracked belongs together. -/
structure Coherent (t : Tracking) : Prop where
  /-- A spinner is held exactly when there is a current tool. -/
  held : t.spinner.isSome ↔ t.current.isSome
  /-- The current tool has an entry. -/
  tracked : ∀ id, t.current = some id → (t.tools.find? id).isSome
  /-- Some input of every tool with an entry has been seen. -/
  seen : ∀ e ∈ t.tools, 1 ≤ e.2.largest

theorem coherent_new (notifies : Bool) (opened : Nat) : (new notifies opened).Coherent where
  held := by simp [new]
  tracked := by simp [new]
  seen := by simp [new]

/-- An entry after taking note of an input is an old one, or has seen that input. -/
theorem mem_tools_observe {t : Tracking} {u : ToolInput} {e : ToolId × Invocation}
    (h : e ∈ (t.observe u).tools) : e ∈ t.tools ∨ e.2.largest = u.size := by
  unfold observe at h
  split at h
  · exact .inl h
  · split at h
    · rcases Tools.mem_insert_iff.mp h with rfl | ⟨h, -⟩
      · exact .inr rfl
      · exact .inl h
    · exact .inl h

theorem mem_tools_step_input {t : Tracking} {now : Nat} {u : ToolInput} {e : ToolId × Invocation}
    (h : e ∈ (t.step (.input now u)).tools) : e ∈ t.tools ∨ e.2.largest = u.size := by
  rw [step] at h
  by_cases hc : t.current = some u.id
  · rw [turn_of_eq now hc] at h
    exact mem_tools_observe h
  · rw [observe_turn_of_ne now hc] at h
    rcases Tools.mem_insert_iff.mp h with rfl | ⟨h, hne⟩
    · exact .inr rfl
    · rw [turn, if_neg hc] at h
      rcases Tools.mem_insert_iff.mp h with rfl | ⟨h, -⟩
      · exact absurd rfl hne
      · exact .inl h

/-- After an input a spinner is held, if there was one for the current tool. -/
theorem Coherent.held_step_input {t : Tracking} (h : t.Coherent) (now : Nat) (u : ToolInput) :
    (t.step (.input now u)).spinner.isSome := by
  rw [step, observe_spinner]
  by_cases hc : t.current = some u.id
  · rw [turn_of_eq now hc, h.held, hc]
    rfl
  · rw [turn, if_neg hc]
    rfl

/-- The tool of an input has an entry afterwards. -/
theorem Coherent.tracked_step_input {t : Tracking} (h : t.Coherent) (now : Nat) (u : ToolInput) :
    ((t.step (.input now u)).tools.find? u.id).isSome := by
  by_cases hc : t.current = some u.id
  · obtain ⟨i, hi⟩ := Option.isSome_iff_exists.mp (h.tracked u.id hc)
    rw [find?_step_input_of_eq hc hi]
    rfl
  · rw [find?_step_input_of_ne now hc]
    rfl

/-- Every cue keeps what is tracked coherent. -/
theorem Coherent.step {t : Tracking} (h : t.Coherent) (q : Cue) : (t.step q).Coherent := by
  cases q with
  | indicate console => exact ⟨h.held, h.tracked, h.seen⟩
  | write kind text endLine => exact h
  | throttle console delay => exact h
  | halt => exact h
  | announce name => exact h
  | input now u =>
    refine ⟨?_, ?_, ?_⟩
    · simp [h.held_step_input now u]
    · intro id hid
      rw [step_input_current, Option.some.injEq] at hid
      exact hid ▸ h.tracked_step_input now u
    · intro e he
      rcases mem_tools_step_input he with he | he
      · exact h.seen e he
      · exact he ▸ u.size_pos
  | result now id e =>
    rw [Tracking.step, conclude]
    split
    · exact h
    · exact ⟨by simp, by simp, fun e he ↦ h.seen e (Tools.mem_of_mem_erase he)⟩

theorem Coherent.play {t : Tracking} (h : t.Coherent) (cues : List Cue) :
    (t.play cues).Coherent := by
  induction cues generalizing t with
  | nil => exact h
  | cons q rest ih => exact ih (h.step q)

end Tracking

namespace Stage

variable {World : Type}

/-- What a presenter tracks is coherent after any run. -/
theorem tracking_run_coherent (d : Display World) (deliveries : List Delivery) (notifies : Bool)
    (opened : Nat) (w : World) :
    (Stage.run d deliveries (.enter (.new notifies) opened w)).tracking.Coherent := by
  rw [(follows_run d deliveries _).tracking]
  exact (Tracking.coherent_new notifies opened).play _

/-- In every state that a new presenter can reach, a spinner is held if and only if a tool is
current, the current tool is tracked, and some input of every tracked tool has been seen. -/
theorem run_coherent (d : Display World) (deliveries : List Delivery) (notifies : Bool)
    (opened : Nat) (w : World) :
    let p := (Stage.run d deliveries (.enter (.new notifies) opened w)).presenter
    (p.spinner.isSome ↔ p.current.isSome) ∧
      (∀ id, p.current = some id → (p.tools.find? id).isSome) ∧
      ∀ e ∈ p.tools, 1 ≤ e.2.largest :=
  have h := tracking_run_coherent d deliveries notifies opened w
  ⟨h.held, h.tracked, h.seen⟩

end Stage

end AgentConsole
