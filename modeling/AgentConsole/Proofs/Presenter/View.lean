import AgentConsole.Presenter.Handle

/-!
# Presenters on a display of which less is seen

A presenter knows nothing of its display but how its calls end.  Let a world be seen through a
function that forgets some of it, and let there be a display on what is left that ends every call in
the same way (`Display.SeenThrough`).  Then the presenter cannot tell the one display from the
other: to forget first and handle a callback then is the same as to handle it and forget afterwards.

* `Display.SeenThrough.handle` : the law for a callback; `Display.SeenThrough.run` : the law for a
  run.
* `Stage.view_handle_eq` : two displays of which the same is seen.
-/

namespace AgentConsole

/-- A display seen through a function on its worlds is another display. -/
def Display.SeenThrough {World World' : Type} (d : Display World) (f : World → World')
    (d' : Display World') : Prop :=
  ∀ c w, d'.respond c (f w) = ((d.respond c w).1, f (d.respond c w).2)

namespace Stage

/-- A stage whose world is seen through a function. -/
def view {World World' : Type} (f : World → World') (s : Stage World) : Stage World' where
  presenter := s.presenter
  opened := s.opened
  world := f s.world
  events := s.events
  remarks := s.remarks

@[simp] theorem view_presenter {World World' : Type} (f : World → World') (s : Stage World) :
    (s.view f).presenter = s.presenter := rfl

@[simp] theorem view_opened {World World' : Type} (f : World → World') (s : Stage World) :
    (s.view f).opened = s.opened := rfl

end Stage

namespace Display.SeenThrough

variable {World World' : Type} {d : Display World} {f : World → World'} {d' : Display World'}

open Stage

/-! ## Calls -/

theorem call (h : d.SeenThrough f d') (c : Call) (s : Stage World) :
    (s.view f).call d' c = ((s.call d c).1, (s.call d c).2.view f) := by
  rw [Stage.call, Stage.call, view, h c s.world]
  rfl

theorem render (h : d.SeenThrough f d') (what : Rendering) (c : Call) (s : Stage World) :
    (s.view f).render d' what c = (s.render d what c).view f := by
  rw [Stage.render, Stage.render, h.call]
  cases s.call d c with
  | mk outcome s =>
    cases outcome with
    | ok => rfl
    | failed fault => rfl

theorem tolerate (h : d.SeenThrough f d') (c : Call) (s : Stage World) :
    (s.view f).tolerate d' c = ((s.tolerate d c).1, (s.tolerate d c).2.view f) := by
  rw [Stage.tolerate, Stage.tolerate, h.call]
  cases s.call d c with
  | mk outcome s =>
    cases outcome with
    | ok => rfl
    | failed fault => rfl

theorem openDisplay (h : d.SeenThrough f d') (c : Nat → Call) (s : Stage World) :
    (s.view f).openDisplay d' c = ((s.openDisplay d c).1, (s.openDisplay d c).2.view f) := by
  unfold Stage.openDisplay
  dsimp only
  rw [view_opened, h.call]
  rfl

/-! ## The thinking indicator -/

theorem dropIndicator (h : d.SeenThrough f d') (s : Stage World) :
    (s.view f).dropIndicator d' = (s.dropIndicator d).view f := by
  unfold Stage.dropIndicator
  rw [view_presenter]
  cases s.presenter.indicator with
  | none => rfl
  | some n =>
    dsimp only
    rw [h.tolerate]
    rfl

theorem showIndicator (h : d.SeenThrough f d') (console : Console) (s : Stage World) :
    (s.view f).showIndicator d' console = (s.showIndicator d console).view f := by
  unfold Stage.showIndicator
  rw [h.dropIndicator, h.openDisplay]
  dsimp only
  rw [h.tolerate]
  dsimp only
  split
  · rfl
  · rfl

theorem updateIndicator (h : d.SeenThrough f d') (s : Stage World) :
    (s.view f).updateIndicator d' = (s.updateIndicator d).view f := by
  unfold Stage.updateIndicator
  rw [view_presenter]
  cases s.presenter.indicator with
  | none => rfl
  | some n =>
    dsimp only
    rw [h.tolerate]

theorem cycleIndicator (h : d.SeenThrough f d') (c : Callback) (s : Stage World) :
    (s.view f).cycleIndicator d' c = (s.cycleIndicator d c).view f := by
  unfold Stage.cycleIndicator
  rw [h.dropIndicator, ← apply_ite (view f)]
  dsimp only
  rw [h.showIndicator, ← apply_ite (view f), h.updateIndicator, ← apply_ite (view f)]

/-! ## Plain text and stops -/

theorem writeReasoning (h : d.SeenThrough f d') (c : Callback) (s : Stage World) :
    (s.view f).writeReasoning d' c = (s.writeReasoning d c).view f := by
  unfold Stage.writeReasoning
  split
  · exact h.render _ _ s
  · rfl

theorem stopSpinner (h : d.SeenThrough f d') (s : Stage World) :
    (s.view f).stopSpinner d' = (s.stopSpinner d).view f := by
  unfold Stage.stopSpinner
  rw [view_presenter]
  split
  · exact h.render _ _ s
  · rfl

theorem writeThrottle (h : d.SeenThrough f d') (c : Callback) (s : Stage World) :
    (s.view f).writeThrottle d' c = (s.writeThrottle d c).view f := by
  unfold Stage.writeThrottle
  split
  · rw [h.stopSpinner, h.render]
  · rfl

theorem forceStop (h : d.SeenThrough f d') (s : Stage World) :
    (s.view f).forceStop d' = (s.forceStop d).view f := by
  unfold Stage.forceStop
  rw [view_presenter]
  split
  · exact h.stopSpinner s
  · rw [h.render, ← h.stopSpinner]
    rfl

theorem writeOutput (h : d.SeenThrough f d') (c : Callback) (s : Stage World) :
    (s.view f).writeOutput d' c = (s.writeOutput d c).view f := by
  unfold Stage.writeOutput
  split
  · exact h.render _ _ s
  · rfl

/-! ## The input of tools -/

theorem switchTool (h : d.SeenThrough f d') (now : Nat) (id : ToolId) (name : String)
    (s : Stage World) :
    (s.view f).switchTool d' now id name = (s.switchTool d now id name).view f := by
  unfold Stage.switchTool
  rw [h.stopSpinner, h.openDisplay]
  dsimp only
  rw [h.render]
  rfl

theorem observeInput (h : d.SeenThrough f d') (id : ToolId) (size : Nat) (s : Stage World) :
    (s.view f).observeInput d' id size = (s.observeInput d id size).view f := by
  unfold Stage.observeInput
  rw [view_presenter]
  cases s.presenter.tools.find? id with
  | none => rfl
  | some i =>
    dsimp only
    split
    · split
      · rw [← h.render]
        rfl
      · rfl
    · rfl

theorem trackInput (h : d.SeenThrough f d') (now : Nat) (u : ToolUpdate) (s : Stage World) :
    (s.view f).trackInput d' now u = (s.trackInput d now u).view f := by
  unfold Stage.trackInput
  split
  · split
    · rw [view_presenter, h.switchTool, ← apply_ite (view f), h.observeInput]
    · rfl
  · rfl

theorem followTool (h : d.SeenThrough f d') (now : Nat) (c : Callback) (s : Stage World) :
    (s.view f).followTool d' now c = (s.followTool d now c).view f := by
  unfold Stage.followTool
  split
  · exact h.trackInput now _ s
  · rfl
  · rfl

/-! ## Messages -/

theorem announce (h : d.SeenThrough f d') (s : Stage World) (call : ToolCall) :
    (s.view f).announce d' call = (s.announce d call).view f := by
  unfold Stage.announce
  rw [view_presenter]
  split
  · rfl
  · split
    · exact h.render _ _ s
    · rfl

theorem conclude (h : d.SeenThrough f d') (now : Nat) (id : ToolId) (i : Invocation)
    (ending : Ending) (s : Stage World) :
    (s.view f).conclude d' now id i ending = (s.conclude d now id i ending).view f := by
  have hnotify (s : Stage World) (c : Call) :
      (if (s.view f).presenter.notifies then ((s.view f).call d' c).2 else s.view f) =
        view f (if s.presenter.notifies then (s.call d c).2 else s) := by
    rw [h.call, ← apply_ite (view f), view_presenter]
  unfold Stage.conclude
  rw [view_presenter]
  cases s.presenter.spinner with
  | none =>
    dsimp only
    rw [hnotify]
    rfl
  | some n =>
    dsimp only
    rw [h.render, hnotify]
    rfl

theorem resolve (h : d.SeenThrough f d') (now : Nat) (s : Stage World) (r : ToolResult) :
    (s.view f).resolve d' now r = (s.resolve d now r).view f := by
  unfold Stage.resolve
  rw [view_presenter]
  split
  · rfl
  · split
    · rfl
    · exact h.conclude now _ _ _ s

theorem takeMessage (h : d.SeenThrough f d') (now : Nat) (m : Message) (s : Stage World) :
    (s.view f).takeMessage d' now m = (s.takeMessage d now m).view f := by
  unfold Stage.takeMessage
  split
  · exact List.foldl_hom (view f) (fun s call ↦ h.announce s call)
  · exact List.foldl_hom (view f) (fun s r ↦ h.resolve now s r)
  · rfl

theorem followMessage (h : d.SeenThrough f d') (now : Nat) (c : Callback) (s : Stage World) :
    (s.view f).followMessage d' now c = (s.followMessage d now c).view f := by
  unfold Stage.followMessage
  split
  · exact h.takeMessage now _ s
  · rfl
  · rfl

/-! ## Callbacks -/

/-- To forget first and handle a callback then is to handle it and forget afterwards. -/
theorem handle (h : d.SeenThrough f d') (now : Nat) (c : Callback) (s : Stage World) :
    (s.view f).handle d' now c = (s.handle d now c).view f := by
  unfold Stage.handle
  dsimp only
  rw [h.cycleIndicator, h.writeReasoning, h.writeThrottle, h.forceStop, ← apply_ite (view f),
    h.writeOutput, h.followTool, h.followMessage]

theorem run (h : d.SeenThrough f d') (deliveries : List Delivery) (s : Stage World) :
    Stage.run d' deliveries (s.view f) = (Stage.run d deliveries s).view f :=
  List.foldl_hom (Stage.view f) fun s x ↦ h.handle x.time x.callback s

end Display.SeenThrough

/-- Two displays of which the same is seen make a presenter do the same. -/
theorem Stage.view_handle_eq {World World₁ World₂ : Type} {d : Display World}
    {d₁ : Display World₁} {d₂ : Display World₂} {f₁ : World₁ → World}
    {f₂ : World₂ → World} (h₁ : d₁.SeenThrough f₁ d)
    (h₂ : d₂.SeenThrough f₂ d) (now : Nat) (c : Callback) {s₁ : Stage World₁}
    {s₂ : Stage World₂}
    (h : s₁.view f₁ = s₂.view f₂) :
    (s₁.handle d₁ now c).view f₁ = (s₂.handle d₂ now c).view f₂ := by
  rw [← h₁.handle, ← h₂.handle, h]

end AgentConsole
