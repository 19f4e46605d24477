import AgentConsole.Proofs.Presenter.Move

/-!
# Whether an indicator is held

A callback can take the indicator away, and it can have another one started.  Whether one is held
afterwards hangs on this and on how the start has ended, and on nothing else
(`Stage.exists_isSome_handle`).  So a presenter whose calls all succeed holds one exactly when its
callbacks say so (`Callback.thinks`), and any other presenter at most then.
-/

namespace AgentConsole

namespace Callback

/-- Whether a callback takes the indicator away to begin with. -/
def takesOver (c : Callback) : Bool := c.output?.isSome || c.concernsTool

/-- Whether an indicator is held after a callback, if all calls succeed. -/
def thinks (c : Callback) (held : Bool) : Bool :=
  !c.forceStop && if c.initLoop then true else held && !c.takesOver

theorem thinks_mono {c : Callback} {held held' : Bool} (h : held = true → held' = true)
    (ht : c.thinks held = true) : c.thinks held' = true := by
  unfold thinks at ht ⊢
  cases hinit : c.initLoop with
  | true => simpa [hinit] using ht
  | false =>
    simp only [hinit, Bool.and_eq_true, Bool.false_eq_true, if_false] at ht ⊢
    exact ⟨ht.1, h ht.2.1, ht.2.2⟩

end Callback

namespace Stage

variable {World : Type} (d : Display World)

theorem isSome_dropIndicator_ite (s : Stage World) (b : Bool) :
    (if b then s.dropIndicator d else s).presenter.indicator.isSome =
      (s.presenter.indicator.isSome && !b) := by
  cases b with
  | true => simp
  | false => simp

/-- The first two steps start an indicator or keep the one that is held. -/
theorem exists_isSome_cycleIndicator (s : Stage World) (c : Callback) :
    ∃ started : Outcome,
      (c.initLoop = true → ∃ e ∈ (s.cycleIndicator d c).events, e.outcome = started) ∧
      (s.cycleIndicator d c).presenter.indicator.isSome =
        if c.initLoop then started.isOk else s.presenter.indicator.isSome && !c.takesOver := by
  -- What comes last, the update, neither takes back an event nor changes what is held.
  have hupdate (m : Stage World) :
      m.events <+: (if c.startLoop then m.updateIndicator d else m).events ∧
      (if c.startLoop then m.updateIndicator d else m).presenter.indicator =
        m.presenter.indicator := by
    refine ⟨(moves_updateIndicator d m).ite.events_mono, ?_⟩
    split
    · exact updateIndicator_indicator d m
    · rfl
  unfold cycleIndicator
  dsimp only
  rw [(hupdate _).2]
  cases c.initLoop with
  | false => exact ⟨.ok, nofun, isSome_dropIndicator_ite d s c.takesOver⟩
  | true =>
    obtain ⟨o, started, -, events, indicator⟩ := exists_showIndicator d
      (dropIndicator_indicator d (if c.takesOver then s.dropIndicator d else s))
      (c.console.getD .stdout)
    rw [showIndicator_dropIndicator] at events indicator
    have hstarted : ∃ e ∈ (showIndicator d (c.console.getD .stdout)
        (if c.takesOver then s.dropIndicator d else s)).events, e.outcome = started := by
      rw [events]
      exact ⟨_, List.mem_append_right _ (List.mem_cons_of_mem _ List.mem_cons_self), rfl⟩
    obtain ⟨e, he, ho⟩ := hstarted
    rw [if_pos rfl]
    refine ⟨started, fun _ ↦ ⟨e, (hupdate _).1.subset he, ho⟩, ?_⟩
    rw [if_pos rfl]
    refine (congrArg Option.isSome indicator).trans ?_
    cases started with
    | ok => rfl
    | failed fault => rfl

/-- After a callback an indicator is held if the callback has started one, or else if one was held
and the callback has not taken it away. -/
theorem exists_isSome_handle (s : Stage World) (now : Nat) (c : Callback) :
    ∃ started : Outcome,
      (c.initLoop = true → ∃ e ∈ (s.handle d now c).events, e.outcome = started) ∧
      (s.handle d now c).presenter.indicator.isSome =
        (!c.forceStop &&
          if c.initLoop then started.isOk else s.presenter.indicator.isSome && !c.takesOver) := by
  obtain ⟨started, hevent, hheld⟩ := exists_isSome_cycleIndicator d s c
  have hmono : (s.cycleIndicator d c).events <+: (s.handle d now c).events :=
    Moves.events_mono ((moves_cycleIndicator_prepare d s c).trans (moves_present d _ now c))
  refine ⟨started, fun hinit ↦ ?_, ?_⟩
  · obtain ⟨e, he, ho⟩ := hevent hinit
    exact ⟨e, hmono.subset he, ho⟩
  · rw [handle_eq_present, (spares_present d _ now c).indicator, ← hheld]
    unfold prepare
    cases c.forceStop with
    | true => simp
    | false =>
      have hwrite := spares_writeThrottle_writeReasoning d (s.cycleIndicator d c) c
      simp [hwrite.indicator]

/-- A presenter holds an indicator at most when its callbacks say so. -/
theorem thinks_of_isSome_handle {s : Stage World} {now : Nat} {c : Callback}
    (h : (s.handle d now c).presenter.indicator.isSome = true) :
    c.thinks s.presenter.indicator.isSome = true := by
  obtain ⟨started, -, hheld⟩ := exists_isSome_handle d s now c
  rw [hheld] at h
  unfold Callback.thinks
  cases hinit : c.initLoop with
  | true => simpa using (Bool.and_eq_true_iff.mp h).1
  | false => simpa [hinit] using h

/-- If all calls succeed it holds one exactly when they do. -/
theorem isSome_handle_of_forall_ok {s : Stage World} {now : Nat} {c : Callback}
    (hok : ∀ e ∈ (s.handle d now c).events, e.outcome = .ok) :
    (s.handle d now c).presenter.indicator.isSome = c.thinks s.presenter.indicator.isSome := by
  obtain ⟨started, hevent, hheld⟩ := exists_isSome_handle d s now c
  rw [hheld]
  unfold Callback.thinks
  cases hinit : c.initLoop with
  | true =>
    obtain ⟨e, he, rfl⟩ := hevent hinit
    rw [hok e he]
    rfl
  | false => rfl

end Stage

end AgentConsole
