import AgentConsole.Proofs.Presenter.Matching
import AgentConsole.Proofs.Presenter.SpinnerTrace
import AgentConsole.Proofs.Presenter.Thinking

/-!
# Presenters that are alike

Two presenters have the same callbacks, but work on different displays: the calls of one may fail
where those of the other succeed, and what one of them opens may have other numbers.  They still
track the same tools and send the same notifications (`Tracking.Alike`).  If all calls of one of
them succeed, the other holds an indicator at most when that one does (`Stage.Resembles`).  So two
presenters for which all calls succeed cannot be told apart from outside
(`Stage.Resembles.snapshot_eq`).
-/

namespace AgentConsole

/-- What shows of a presenter from outside. -/
structure Snapshot where
  thinking : Bool
  spinning : Bool
  current : Option ToolId
  tools : Tools

/-- The snapshot of a presenter. -/
def Presenter.snapshot (p : Presenter) : Snapshot where
  thinking := p.indicator.isSome
  spinning := p.spinner.isSome
  current := p.current
  tools := p.tools

/-! ## Tracking under other numbers -/

namespace Tracking

/-- The same is tracked, though the displays have other numbers. -/
structure Alike (t t' : Tracking) : Prop where
  notifies : t.notifies = t'.notifies
  held : t.spinner.isSome = t'.spinner.isSome
  current : t.current = t'.current
  tools : t.tools = t'.tools

/-- The notifications of a cue. -/
def notices (q : Cue) (t : Tracking) : List Call := (t.calls q).filter Call.isNotification

theorem filter_isNotification_spinnerCalls (t : Tracking) (act : SpinnerAct) :
    (t.spinnerCalls act).filter Call.isNotification = [] := by
  unfold spinnerCalls
  cases t.spinner with
  | none => rfl
  | some n => rfl

/-- Only the end of a tracked tool sends notifications. -/
theorem notices_eq_nil {t : Tracking} {q : Cue} (h : ∀ now id e, q ≠ .result now id e) :
    t.notices q = [] := by
  unfold notices
  cases q with
  | input now u =>
    by_cases hc : t.current = some u.id
    · rcases calls_input_of_eq_cases hc now with hcalls | ⟨label, hcalls⟩
      · rw [hcalls, List.filter_nil]
      · rw [hcalls, filter_isNotification_spinnerCalls]
    · rw [calls_input_of_ne hc, List.filter_append, filter_isNotification_spinnerCalls]
      rfl
  | result now id e => exact absurd rfl (h now id e)
  | throttle console delay =>
    rw [calls, List.filter_append, filter_isNotification_spinnerCalls]
    rfl
  | halt | announce name => exact filter_isNotification_spinnerCalls t _
  | indicate console | write kind text endLine => rfl

/-- It sends one, if any are sent. -/
theorem notices_result (t : Tracking) (now : Nat) (id : ToolId) (e : Ending) :
    t.notices (.result now id e) =
      if t.notifies then
        ((t.tools.find? id).map fun i ↦ Call.notify i.name (i.summary now e)).toList
      else [] := by
  unfold notices calls
  cases hi : t.tools.find? id with
  | none => simp [concludeCalls_of_find?_eq_none hi]
  | some i => exact filter_isNotification_concludeCalls hi now e

theorem notices_eq_nil_of_notifies {t : Tracking} (h : t.notifies = false) (q : Cue) :
    t.notices q = [] := by
  by_cases hq : ∃ now id e, q = .result now id e
  · obtain ⟨now, id, e, rfl⟩ := hq
    simp [notices_result, h]
  · exact notices_eq_nil fun now id e heq ↦ hq ⟨now, id, e, heq⟩

namespace Alike

variable {t t' : Tracking}

theorem turn (h : t.Alike t') (now : Nat) (u : ToolInput) :
    (t.turn now u).Alike (t'.turn now u) := by
  unfold Tracking.turn
  rw [h.current]
  split
  · exact h
  · exact ⟨h.notifies, rfl, rfl, by rw [h.tools]⟩

theorem observe (h : t.Alike t') (u : ToolInput) : (t.observe u).Alike (t'.observe u) := by
  unfold Tracking.observe
  rw [h.tools]
  split
  · exact h
  · split
    · exact ⟨h.notifies, h.held, h.current, rfl⟩
    · exact h

theorem conclude (h : t.Alike t') (id : ToolId) : (t.conclude id).Alike (t'.conclude id) := by
  unfold Tracking.conclude
  rw [h.tools]
  split
  · exact h
  · exact ⟨h.notifies, rfl, rfl, rfl⟩

theorem step (h : t.Alike t') (q : Cue) : (t.step q).Alike (t'.step q) := by
  cases q with
  | indicate console => exact ⟨h.notifies, h.held, h.current, h.tools⟩
  | input now u => exact (h.turn now u).observe u
  | result now id e => exact h.conclude id
  | write kind text endLine | throttle console delay | halt | announce name => exact h

theorem notices_eq (h : t.Alike t') (q : Cue) : t.notices q = t'.notices q := by
  by_cases hq : ∃ now id e, q = .result now id e
  · obtain ⟨now, id, e, rfl⟩ := hq
    rw [notices_result, notices_result, h.notifies, h.tools]
  · have hne : ∀ now id e, q ≠ .result now id e :=
      fun now id e heq ↦ hq ⟨now, id, e, heq⟩
    rw [notices_eq_nil hne, notices_eq_nil hne]

/-- Whoever tracks the same goes on doing so, and sends the same notifications. -/
theorem play (h : t.Alike t') (cues : List Cue) :
    (t.play cues).Alike (t'.play cues) ∧
      (t.trace cues).filter Call.isNotification = (t'.trace cues).filter Call.isNotification := by
  induction cues generalizing t t' with
  | nil => exact ⟨h, rfl⟩
  | cons q rest ih =>
    obtain ⟨hplay, htrace⟩ := ih (h.step q)
    refine ⟨hplay, ?_⟩
    rw [trace_cons, trace_cons, List.filter_append, List.filter_append, htrace]
    exact congrArg (· ++ _) (h.notices_eq q)

end Alike

end Tracking

namespace Stage

variable {World World' : Type} {d : Display World} {d' : Display World'}

theorem handle_notifications (d : Display World) (s : Stage World) (now : Nat) (c : Callback) :
    (s.handle d now c).notifications =
      s.notifications ++ (s.tracking.trace (c.cues now)).filter Call.isNotification :=
  (follows_handle d s now c).notifications_eq

/-- One presenter tracks the same as another, and holds an indicator only if that one does. -/
structure Resembles (s : Stage World) (a : Stage World') : Prop where
  tracking : s.tracking.Alike a.tracking
  held : s.presenter.indicator.isSome = true → a.presenter.indicator.isSome = true

/-- Two new presenters are alike. -/
theorem resembles_new (notifies : Bool) (opened opened' : Nat) (w : World) (w' : World') :
    (Stage.enter (.new notifies) opened w).Resembles (Stage.enter (.new notifies) opened' w') :=
  ⟨⟨rfl, rfl, rfl, rfl⟩, nofun⟩

/-- Wherever it stands, a presenter resembles the same ones. -/
theorem Resembles.enter {s : Stage World} {a : Stage World'} (h : s.Resembles a) {World'' : Type}
    (opened : Nat) (w : World'') : (Stage.enter s.presenter opened w).Resembles a where
  tracking := ⟨h.tracking.notifies, h.tracking.held, h.tracking.current, h.tracking.tools⟩
  held := h.held

/-- A presenter goes on to resemble one for which all calls succeed. -/
theorem Resembles.handle {s : Stage World} {a : Stage World'} (h : s.Resembles a) (now : Nat)
    (c : Callback) (hok : ∀ e ∈ (a.handle d' now c).events, e.outcome = .ok) :
    (s.handle d now c).Resembles (a.handle d' now c) where
  tracking := by
    rw [(follows_handle d s now c).tracking, (follows_handle d' a now c).tracking]
    exact (h.tracking.play _).1
  held hheld := by
    rw [isSome_handle_of_forall_ok d' hok]
    exact Callback.thinks_mono h.held (thinks_of_isSome_handle d hheld)

theorem Resembles.run {s : Stage World} {a : Stage World'} (h : s.Resembles a)
    {deliveries : List Delivery}
    (hok : ∀ e ∈ (Stage.run d' deliveries a).events, e.outcome = .ok) :
    (Stage.run d deliveries s).Resembles (Stage.run d' deliveries a) := by
  induction deliveries generalizing s a with
  | nil => exact h
  | cons x rest ih =>
    have hmono : (a.handle d' x.time x.callback).events <+: (Stage.run d' (x :: rest) a).events :=
      Moves.events_mono (moves_run d' rest _)
    exact ih (h.handle x.time x.callback fun e he ↦ hok e (hmono.subset he)) hok

/-- Two presenters that resemble each other look the same. -/
theorem Resembles.snapshot_eq {s : Stage World} {a : Stage World'} (h : s.Resembles a)
    (h' : a.Resembles s) : s.presenter.snapshot = a.presenter.snapshot := by
  have hthinking : s.presenter.indicator.isSome = a.presenter.indicator.isSome :=
    Bool.eq_iff_iff.mpr ⟨h.held, h'.held⟩
  have hspinning : s.presenter.spinner.isSome = a.presenter.spinner.isSome := h.tracking.held
  have hcurrent : s.presenter.current = a.presenter.current := h.tracking.current
  have htools : s.presenter.tools = a.presenter.tools := h.tracking.tools
  simp only [Presenter.snapshot, hthinking, hspinning, hcurrent, htools]

end Stage

end AgentConsole
