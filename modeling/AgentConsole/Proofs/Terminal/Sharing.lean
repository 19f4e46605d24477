import AgentConsole.Proofs.Presenter.Likeness
import AgentConsole.Proofs.Terminal.Attendance

/-!
# Presenters that share a terminal

Several presenters work on one terminal, and their callbacks come in any order.  The only thing they
have in common that matters is the slot of the indicators.  So two things are to be shown: that
among all of them at most one holds an indicator (`Session.Shared`), and that apart from this each
presenter goes on as if it were the only one (`Stage.Resembles`).

A presenter that is refused an indicator holds none, and later stops and updates find nothing to act
on.  Its displays have other numbers than they would have on a terminal of its own, but it is the
same displays.
-/

namespace AgentConsole

namespace Delivery

/-- The callbacks for one of several presenters. -/
def own (k : Nat) (deliveries : List (Nat × Delivery)) : List Delivery :=
  (deliveries.filter (·.1 = k)).map (·.2)

theorem own_cons_self (x : Nat × Delivery) (rest : List (Nat × Delivery)) :
    own x.1 (x :: rest) = x.2 :: own x.1 rest := by
  simp [own]

theorem own_cons_of_ne {x : Nat × Delivery} {k : Nat} (h : x.1 ≠ k)
    (rest : List (Nat × Delivery)) :
    own k (x :: rest) = own k rest := by
  simp [own, h]

end Delivery

namespace Session

/-- A session in which presenters share a terminal, some of them with notifications. -/
def shared (terminal : Terminal) (notifies : List Bool) : Session :=
  { new terminal 0 false with presenters := notifies.map .new }

/-- Delivers a callback to one of the presenters. -/
def deliverOne (x : Nat × Delivery) (s : Session) : Session :=
  (s.stepAt (some x.2.time) (.deliver x.1 x.2.callback)).2

/-- Delivers callbacks one after the other, each to one of the presenters. -/
def deliverAll (deliveries : List (Nat × Delivery)) (s : Session) : Session :=
  s.run (deliveries.map fun x ↦ (some x.2.time, .deliver x.1 x.2.callback))

/-- The stage of a presenter that has handled a callback. -/
def stage (p : Presenter) (x : Delivery) (s : Session) : Stage Terminal :=
  (Stage.enter p s.opened s.terminal).handle Terminal.display x.time x.callback

/-- The notifications that are sent when a callback is delivered. -/
def sent (x : Nat × Delivery) (s : Session) : List Call :=
  match s.presenters[x.1]? with
  | none => []
  | some p => (s.stage p x.2).notifications

/-- The notifications that a presenter sends while callbacks are delivered. -/
def notifications (k : Nat) : List (Nat × Delivery) → Session → List Call
  | [], _ => []
  | x :: rest, s => (if x.1 = k then s.sent x else []) ++ notifications k rest (s.deliverOne x)

variable {s : Session}

theorem deliverOne_of_eq_none {x : Nat × Delivery} (h : s.presenters[x.1]? = none) :
    s.deliverOne x = { s with clock := x.2.time } := by
  simp [deliverOne, stepAt, step, deliver, h]

theorem deliverOne_of_eq_some {x : Nat × Delivery} {p : Presenter}
    (h : s.presenters[x.1]? = some p) :
    s.deliverOne x = { s with
      clock := x.2.time
      terminal := (s.stage p x.2).world
      opened := (s.stage p x.2).opened
      presenters := s.presenters.set x.1 (s.stage p x.2).presenter } := by
  simp [deliverOne, stepAt, step, deliver, stage, h]

/-- Another presenter stays as it is. -/
theorem deliverOne_presenters_of_ne {x : Nat × Delivery} {k : Nat} (h : x.1 ≠ k) :
    (s.deliverOne x).presenters[k]? = s.presenters[k]? := by
  cases hp : s.presenters[x.1]? with
  | none => rw [deliverOne_of_eq_none hp]
  | some p =>
    rw [deliverOne_of_eq_some hp]
    exact List.getElem?_set_ne h

/-- The indicators that run are those that the presenters hold. -/
structure Shared (s : Session) : Prop where
  orderly : s.terminal.Orderly
  running : s.terminal.indicators.Perm (s.presenters.filterMap (·.indicator))
  /-- The next number is a new one. -/
  bounded : ∀ n ∈ s.terminal.indicators, n ≤ s.opened

theorem shared_new (color ansi hidden : Bool) (notifies : List Bool) :
    (shared (.new color ansi hidden) notifies).Shared where
  orderly := Terminal.orderly_new ..
  running := by
    have hnone : (notifies.map Presenter.new).filterMap (·.indicator) = [] := by
      rw [List.filterMap_map, List.filterMap_eq_nil_iff]
      intro b _
      rfl
    exact hnone ▸ .refl []
  bounded := nofun

/-- The indicators of several presenters are that of one of them and those of the others. -/
theorem filterMap_indicator_perm (front back : List Presenter) (p : Presenter) :
    ((front ++ p :: back).filterMap (·.indicator)).Perm
      (p.indicator.toList ++ (front ++ back).filterMap (·.indicator)) := by
  rw [List.filterMap_append, List.filterMap_append]
  cases hp : p.indicator with
  | none =>
    rw [List.filterMap_cons_none hp]
    exact .refl _
  | some n =>
    rw [List.filterMap_cons_some hp]
    exact List.perm_middle

/-- While one presenter is at work, the others hold what they held. -/
theorem Shared.deliverOne (h : s.Shared) (x : Nat × Delivery) : (s.deliverOne x).Shared := by
  cases hp : s.presenters[x.1]? with
  | none =>
    rw [deliverOne_of_eq_none hp]
    exact ⟨h.orderly, h.running, h.bounded⟩
  | some p =>
    rw [deliverOne_of_eq_some hp]
    obtain ⟨hlt, rfl⟩ := List.getElem?_eq_some_iff.mp hp
    generalize hstage : s.stage s.presenters[x.1] x.2 = m
    obtain ⟨front, back, heq, -, hset⟩ :
        ∃ front back, s.presenters = front ++ s.presenters[x.1] :: back ∧
        front.length = x.1 ∧ s.presenters.set x.1 m.presenter = front ++ m.presenter :: back :=
      List.exists_of_set hlt
    have hbefore : (Stage.enter s.presenters[x.1] s.opened s.terminal).Attended id
        ((front ++ back).filterMap (·.indicator)) :=
      ⟨h.orderly, (heq ▸ h.running).trans (filterMap_indicator_perm front back _), h.bounded⟩
    have hafter : m.Attended id ((front ++ back).filterMap (·.indicator)) := by
      rw [← hstage]
      exact (Stage.moves_handle Terminal.display _ x.2.time x.2.callback).keeps
        (fun hmove ↦ hmove.attended Terminal.display_showsOn) hbefore
    refine ⟨hafter.orderly, ?_, hafter.bounded⟩
    rw [hset]
    exact hafter.running.trans (filterMap_indicator_perm front back _).symm

theorem Shared.deliverAll (h : s.Shared) (deliveries : List (Nat × Delivery)) :
    (s.deliverAll deliveries).Shared := by
  induction deliveries generalizing s with
  | nil => exact h
  | cons x rest ih => exact ih (h.deliverOne x)

/-- At most one presenter holds an indicator, and the slot is claimed exactly while one does. -/
theorem Shared.countP (h : s.Shared) :
    s.presenters.countP (·.indicator.isSome) ≤ 1 ∧
      (s.terminal.claimed = true ↔ s.presenters.countP (·.indicator.isSome) = 1) := by
  have hlen : s.terminal.indicators.length = s.presenters.countP (·.indicator.isSome) := by
    rw [h.running.length_eq, List.length_filterMap_eq_countP]
  exact ⟨hlen ▸ h.orderly.single, hlen ▸ h.orderly.claimed_iff⟩

/-- A presenter of the session resembles the presenter of a stage. -/
def Has (k : Nat) (s : Session) (a : Stage Terminal) : Prop :=
  ∃ p, s.presenters[k]? = some p ∧ (Stage.enter p s.opened s.terminal).Resembles a

/-- A presenter of a session that has handled a callback resembles one on its own that has handled
it too, and has sent the same notifications. -/
theorem Has.deliverOne {x : Nat × Delivery} {a : Stage Terminal} (h : s.Has x.1 a)
    (hok : ∀ e ∈ (a.handle Terminal.display x.2.time x.2.callback).events, e.outcome = .ok) :
    let own := a.handle Terminal.display x.2.time x.2.callback
    (s.deliverOne x).Has x.1 own ∧ own.notifications = a.notifications ++ s.sent x := by
  obtain ⟨p, hp, hlike⟩ := h
  have hafter : (s.stage p x.2).Resembles (a.handle Terminal.display x.2.time x.2.callback) :=
    hlike.handle x.2.time x.2.callback hok
  constructor
  · rw [deliverOne_of_eq_some hp]
    refine ⟨(s.stage p x.2).presenter, ?_, hafter.enter ..⟩
    exact List.getElem?_set_self (List.getElem?_eq_some_iff.mp hp).1
  · rw [Stage.handle_notifications, sent, hp]
    dsimp only
    rw [stage, Stage.handle_notifications]
    exact congrArg _ (hlike.tracking.play _).2.symm

/-- It resembles that one as well when another presenter has handled a callback. -/
theorem Has.deliverOne_of_ne {x : Nat × Delivery} {k : Nat} {a : Stage Terminal} (h : s.Has k a)
    (hk : x.1 ≠ k) : (s.deliverOne x).Has k a := by
  obtain ⟨p, hp, hlike⟩ := h
  exact ⟨p, (deliverOne_presenters_of_ne hk).trans hp, hlike.enter ..⟩

/-- A presenter of a session goes on to resemble one on its own that is given the same callbacks,
and sends the same notifications. -/
theorem Has.deliverAll {k : Nat} {a : Stage Terminal} (h : s.Has k a) (halone : a.Alone id)
    (hok : ∀ e ∈ a.events, e.outcome = .ok) (deliveries : List (Nat × Delivery)) :
    let own := Stage.run Terminal.display (Delivery.own k deliveries) a
    (s.deliverAll deliveries).Has k own ∧
      own.notifications = a.notifications ++ s.notifications k deliveries := by
  induction deliveries generalizing s a with
  | nil => exact ⟨h, (List.append_nil _).symm⟩
  | cons x rest ih =>
    by_cases hk : x.1 = k
    · subst hk
      have hmoves := Stage.moves_handle Terminal.display a x.2.time x.2.callback
      have hok' := Stage.Moves.forall_ok hmoves halone hok
      obtain ⟨hhas, hsent⟩ := h.deliverOne hok'
      obtain ⟨hrest, hnotices⟩ :=
        ih hhas (Stage.Moves.alone Terminal.display_showsOn hmoves halone) hok'
      rw [Delivery.own_cons_self]
      refine ⟨hrest, hnotices.trans ?_⟩
      rw [hsent, notifications, if_pos rfl, List.append_assoc]
    · rw [Delivery.own_cons_of_ne hk, notifications, if_neg hk]
      exact ih (h.deliverOne_of_ne hk) halone hok

/-- However the callbacks of several presenters on one terminal are interleaved, at most one of them
holds an indicator, and the slot is claimed exactly while one does.  Each of them tracks the same
tools, holds a spinner for the same one and has sent the same notifications as a presenter that has
had its callbacks, at the same times, on a terminal of its own; and it holds an indicator only if
that one does. -/
theorem sharing_like_alone (color ansi hidden : Bool) (notifies : List Bool)
    (deliveries : List (Nat × Delivery)) :
    let start := shared (.new color ansi hidden) notifies
    let s := start.deliverAll deliveries
    s.presenters.countP (·.indicator.isSome) ≤ 1 ∧
      (s.terminal.claimed = true ↔ s.presenters.countP (·.indicator.isSome) = 1) ∧
      ∀ k : Fin notifies.length,
        let alone := Stage.run Terminal.display (Delivery.own k deliveries)
          (.enter (.new notifies[k]) 0 (.new color ansi hidden))
        ∃ p, s.presenters[k.val]? = some p ∧
          p.current = alone.presenter.current ∧
          p.tools = alone.presenter.tools ∧
          p.spinner.isSome = alone.presenter.spinner.isSome ∧
          start.notifications k deliveries = alone.notifications ∧
          (p.indicator.isSome = true → alone.presenter.indicator.isSome = true) := by
  intro start s
  have hshared : s.Shared := (shared_new color ansi hidden notifies).deliverAll deliveries
  refine ⟨hshared.countP.1, hshared.countP.2, ?_⟩
  intro k alone
  have hidle : (id (Terminal.new color ansi hidden)).Idle := Terminal.idle_new color ansi hidden
  have halone := Stage.alone_enter hidle notifies[k] 0
  have hhas : start.Has k (.enter (.new notifies[k]) 0 (.new color ansi hidden)) :=
    ⟨.new notifies[k], by simp [start, shared], Stage.resembles_new ..⟩
  obtain ⟨⟨p, hp, hlike⟩, hnotices⟩ := hhas.deliverAll halone nofun deliveries
  exact ⟨p, hp, hlike.tracking.current, hlike.tracking.tools, hlike.tracking.held, hnotices.symm,
    hlike.held⟩

/-- The second presenter is refused, and holds nothing. -/
example :
    let init : Delivery := ⟨0, { Callback.empty with initLoop := true }⟩
    let s := (shared (.new false false false) [false, false]).deliverAll [(0, init), (1, init)]
    s.presenters.map (·.indicator) = [some 1, none] := by decide

end Session

end AgentConsole
