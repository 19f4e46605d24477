import AgentConsole.Proofs.Presenter.Move
import AgentConsole.Proofs.Terminal.Writing
import AgentConsole.Terminal.Session

/-!
# The slot that the indicators share

An indicator claims the slot when it starts, and gives it back when it stops or is dropped.  Nothing
ties the slot to the indicator that has claimed it, so that it is the indicators who have to keep
the order: one that runs does not claim a second time, and one that does not run gives nothing back.
`Terminal.Orderly` says what comes of this, and every answer of a terminal keeps it.

* `Terminal.Orderly.startIndicator_eq`, `Terminal.Orderly.stopIndicator_eq` : what starting and
  stopping come to on an orderly terminal.
* `Terminal.Orderly.answers` : whatever a terminal is called for, it stays orderly.
* `Session.indicators_exclude_each_other` : the law of the slot in every session.
-/

namespace AgentConsole

namespace Terminal

/-- At most one indicator runs, and the slot is claimed exactly while one does. -/
structure Orderly (t : Terminal) : Prop where
  single : t.indicators.length ≤ 1
  claimed_iff : t.claimed = true ↔ t.indicators.length = 1

theorem orderly_new (color ansi hidden : Bool) : (new color ansi hidden).Orderly where
  single := Nat.zero_le 1
  claimed_iff := by simp [new]

/-- A terminal that hands the slot on as it is stays orderly. -/
theorem Orderly.of_slot_eq {t t' : Terminal} (h : t.Orderly)
    (heq : t'.claimed = t.claimed ∧ t'.indicators = t.indicators) : t'.Orderly := by
  obtain ⟨hc, hi⟩ := heq
  exact ⟨hi ▸ h.single, by rw [hc, hi]; exact h.claimed_iff⟩

/-- The terminal whose slot one indicator has claimed. -/
def claimedBy (n : Nat) (t : Terminal) : Terminal := { t with claimed := true, indicators := [n] }

/-- The terminal whose slot has been given back. -/
def released (t : Terminal) : Terminal := { t with claimed := false, indicators := [] }

theorem orderly_claimedBy (n : Nat) (t : Terminal) : (t.claimedBy n).Orderly :=
  ⟨Nat.le_refl 1, by simp [claimedBy]⟩

theorem orderly_released (t : Terminal) : t.released.Orderly :=
  ⟨Nat.zero_le 1, by simp [released]⟩

namespace Orderly

variable {t : Terminal}

/-- Either the slot is free and nothing runs, or one indicator runs and has claimed it. -/
theorem free_or_claimed (h : t.Orderly) :
    (t.claimed = false ∧ t.indicators = []) ∨ ∃ n, t.claimed = true ∧
      t.indicators = [n] := by
  rcases Nat.le_one_iff_eq_zero_or_eq_one.mp h.single with hlen | hlen
  · left
    refine ⟨?_, List.length_eq_zero_iff.mp hlen⟩
    rw [Bool.eq_false_iff, ne_eq, h.claimed_iff, hlen]
    exact Nat.zero_ne_one
  · right
    obtain ⟨n, hn⟩ := List.length_eq_one_iff.mp hlen
    exact ⟨n, h.claimed_iff.mpr hlen, hn⟩

/-- An indicator that runs starts without another claim, one that finds the slot free claims it, and
otherwise the start is refused. -/
theorem startIndicator_eq (h : t.Orderly) (n : Nat) :
    t.startIndicator n =
      if n ∈ t.indicators then (.ok, t)
      else if t.indicators = [] then (.ok, t.claimedBy n)
      else (.failed .displayActive, t) := by
  unfold startIndicator
  rcases h.free_or_claimed with ⟨hc, hi⟩ | ⟨m, hc, hi⟩
  · simp [hc, hi, claimedBy]
  · by_cases hn : n = m
    · simp [hi, hn]
    · simp [hc, hi, hn]

/-- An indicator that runs gives the slot back when it stops, and any other changes nothing. -/
theorem stopIndicator_eq (h : t.Orderly) (n : Nat) :
    t.stopIndicator n = if n ∈ t.indicators then t.released else t := by
  unfold stopIndicator
  rcases h.free_or_claimed with ⟨hc, hi⟩ | ⟨m, hc, hi⟩
  · simp [hi]
  · by_cases hn : n = m
    · simp [hi, hn, released]
    · simp [hi, hn]

theorem startIndicator (h : t.Orderly) (n : Nat) : (t.startIndicator n).2.Orderly := by
  rw [h.startIndicator_eq]
  split
  · exact h
  · split
    · exact orderly_claimedBy n t
    · exact h

theorem stopIndicator (h : t.Orderly) (n : Nat) : (t.stopIndicator n).Orderly := by
  rw [h.stopIndicator_eq]
  split
  · exact orderly_released t
  · exact h

theorem actIndicator (h : t.Orderly) (n : Nat) (act : IndicatorAct) :
    (t.actIndicator n act).2.Orderly := by
  cases act with
  | start label => exact h.startIndicator n
  | update label => exact h
  | stop => exact h.stopIndicator n

/-- Whatever a terminal is called for, and however its writing ends, it stays orderly. -/
theorem answers {c : Call} {o : Outcome} {t' : Terminal} (h : t.Orderly) (ha : t.Answers c o t') :
    t'.Orderly := by
  cases c with
  | indicator n act =>
    rw [(ha.eq_respond rfl).2]
    exact h.actIndicator n act
  | _ => exact h.of_slot_eq (ha.slot_eq nofun)

theorem respond (h : t.Orderly) (c : Call) : (t.respond c).2.Orderly := h.answers .carriesOut

theorem stopSpinner (h : t.Orderly) (n : Nat) : (t.stopSpinner n).Orderly :=
  h.of_slot_eq ⟨rfl, rfl⟩

end Orderly

end Terminal

/-- Whether a step is about a spinner. -/
def SessionStep.concernsSpinner : SessionStep → Bool
  | .openSpinner _ | .spinner _ _ | .dropSpinner _ => true
  | _ => false

namespace Session

/-- Carries out steps one after the other, each at its time. -/
def run (steps : List (Option Nat × SessionStep)) (s : Session) : Session :=
  steps.foldl (fun s x ↦ (s.stepAt x.1 x.2).2) s

theorem call_eq (c : Call) (s : Session) :
    s.call c =
      (.outcome (s.terminal.respond c).1, { s with terminal := (s.terminal.respond c).2 }) := rfl

theorem orderly_call {s : Session} (h : s.terminal.Orderly) (c : Call) :
    (s.call c).2.terminal.Orderly := h.respond c

theorem orderly_dropIndicator {s : Session} (h : s.terminal.Orderly) (slot : Nat) :
    (s.dropIndicator slot).terminal.Orderly := by
  unfold dropIndicator
  split
  · exact h
  · exact h.stopIndicator _

theorem orderly_dropSpinner {s : Session} (h : s.terminal.Orderly) (slot : Nat) :
    (s.dropSpinner slot).terminal.Orderly := by
  unfold dropSpinner
  split
  · exact h
  · exact h.stopSpinner _

/-- A presenter brings no disorder, as all that it does is to make calls. -/
theorem orderly_deliver {s : Session} (h : s.terminal.Orderly) (k : Nat) (c : Callback) :
    (s.deliver k c).2.terminal.Orderly := by
  unfold deliver
  split
  · exact h
  · rename_i p _
    have hmoves := Stage.moves_handle Terminal.display (.enter p s.opened s.terminal) s.clock c
    exact hmoves.answered.keeps (P := Terminal.Orderly) (fun c t ht ↦ ht.respond c) h

/-- Every step keeps the terminal orderly. -/
theorem orderly_step {s : Session} (h : s.terminal.Orderly) (x : SessionStep) :
    (s.step x).2.terminal.Orderly := by
  cases x with
  | idle => exact h
  | deliver k c => exact orderly_deliver h k c
  | openIndicator slot console =>
    exact orderly_dropIndicator (orderly_call h (.openIndicator (s.opened + 1) console)) slot
  | openSpinner slot =>
    exact orderly_dropSpinner (orderly_call h (.openSpinner (s.opened + 1))) slot
  | dropIndicator slot => exact orderly_dropIndicator h slot
  | dropSpinner slot => exact orderly_dropSpinner h slot
  | indicator slot act | spinner slot act =>
    unfold step
    dsimp only
    split
    · exact h
    · exact orderly_call h _
  | stream kind text endLine => exact orderly_call h (.stream kind text endLine)
  | throttle console delay => exact orderly_call h (.throttle console delay)
  | notify title message => exact orderly_call h (.notify title message)

theorem orderly_run {s : Session} (h : s.terminal.Orderly)
    (steps : List (Option Nat × SessionStep)) :
    (s.run steps).terminal.Orderly := by
  induction steps generalizing s with
  | nil => exact h
  | cons x rest ih => exact ih (orderly_step (s := { s with clock := x.1.getD s.clock }) h x.2)

/-! ## Single steps -/

variable {s : Session}

theorem step_indicator {slot n : Nat} (hn : s.indicators.lookup slot = some n)
    (act : IndicatorAct) :
    s.step (.indicator slot act) = s.call (.indicator n act) := by
  simp [step, hn]

theorem step_dropIndicator_terminal {slot n : Nat} (hn : s.indicators.lookup slot = some n) :
    (s.step (.dropIndicator slot)).2.terminal = s.terminal.stopIndicator n := by
  simp [step, dropIndicator, hn]

theorem step_start (h : s.terminal.Orderly) {slot n : Nat} (hn : s.indicators.lookup slot = some n)
    (label : String) :
    s.step (.indicator slot (.start label)) =
      if n ∈ s.terminal.indicators then (.outcome .ok, s)
      else if s.terminal.indicators = [] then
        (.outcome .ok, { s with terminal := s.terminal.claimedBy n })
      else (.outcome (.failed .displayActive), s) := by
  rw [step_indicator hn, call_eq, Terminal.respond, Terminal.actIndicator, h.startIndicator_eq]
  split
  · rfl
  · split
    · rfl
    · rfl

theorem step_stop (h : s.terminal.Orderly) {slot n : Nat} (hn : s.indicators.lookup slot = some n) :
    s.step (.indicator slot .stop) = (.outcome .ok,
      if n ∈ s.terminal.indicators then { s with terminal := s.terminal.released } else s) := by
  rw [step_indicator hn, call_eq, Terminal.respond, Terminal.actIndicator, h.stopIndicator_eq]
  split
  · rfl
  · rfl

/-- A step about a spinner leaves the slot alone. -/
theorem step_slot_eq {x : SessionStep} (hx : x.concernsSpinner = true) :
    (s.step x).2.terminal.claimed = s.terminal.claimed ∧
      (s.step x).2.terminal.indicators = s.terminal.indicators := by
  have hdrop (s : Session) (slot : Nat) :
      (s.dropSpinner slot).terminal.claimed = s.terminal.claimed ∧
      (s.dropSpinner slot).terminal.indicators = s.terminal.indicators := by
    unfold dropSpinner
    split
    · exact ⟨rfl, rfl⟩
    · exact ⟨rfl, rfl⟩
  cases x with
  | openSpinner slot => exact hdrop (s.call (.openSpinner (s.opened + 1))).2 slot
  | dropSpinner slot => exact hdrop s slot
  | spinner slot act =>
    unfold step
    dsimp only
    split
    · exact ⟨rfl, rfl⟩
    · exact Terminal.actSpinner_slot_eq s.terminal _ act
  | _ => cases hx

/-- After any steps of a session at most one indicator runs, and the slot is claimed exactly while
one does.  To start an indicator that does not run succeeds exactly when no other one runs, and is
refused without any effect otherwise; one that runs starts without another claim, and to update one
changes nothing.  To stop or drop an indicator, or to put another one in its place, gives the slot
back only if it was running.  Spinners never touch the slot, whether or not they can be written. -/
theorem indicators_exclude_each_other (color ansi hidden : Bool) (presenters : Nat)
    (notifies : Bool) (steps : List (Option Nat × SessionStep)) :
    let s := (new (.new color ansi hidden) presenters notifies).run steps
    let running := s.terminal.indicators
    running.length ≤ 1 ∧
      (s.terminal.claimed = true ↔ running.length = 1) ∧
      (∀ slot n, s.indicators.lookup slot = some n →
        (∀ label, s.step (.indicator slot (.start label)) =
          if n ∈ running then (.outcome .ok, s)
          else if running = [] then (.outcome .ok, { s with terminal := s.terminal.claimedBy n })
          else (.outcome (.failed .displayActive), s)) ∧
        (∀ label, s.step (.indicator slot (.update label)) = (.outcome .ok, s)) ∧
        s.step (.indicator slot .stop) =
          (.outcome .ok,
            if n ∈ running then { s with terminal := s.terminal.released } else s) ∧
        (s.step (.dropIndicator slot)).2.terminal =
          if n ∈ running then s.terminal.released else s.terminal) ∧
      (∀ slot console, (s.step (.openIndicator slot console)).2.terminal =
        (s.step (.dropIndicator slot)).2.terminal) ∧
      (∀ x, x.concernsSpinner = true → (s.step x).2.terminal.claimed = s.terminal.claimed ∧
        (s.step x).2.terminal.indicators = running) ∧
      ∀ n act o t, s.terminal.Answers (.spinner n act) o t →
        t.claimed = s.terminal.claimed ∧ t.indicators = running := by
  intro s running
  have h : s.terminal.Orderly :=
    orderly_run (s := new (.new color ansi hidden) presenters notifies)
      (Terminal.orderly_new ..) steps
  refine ⟨h.single, h.claimed_iff, ?_, ?_, ?_, ?_⟩
  · intro slot n hn
    refine ⟨step_start h hn, ?_, step_stop h hn, ?_⟩
    · intro label
      rw [step_indicator hn]
      rfl
    · rw [step_dropIndicator_terminal hn]
      exact h.stopIndicator_eq n
  · intro slot console
    rfl
  · intro x hx
    exact step_slot_eq hx
  · intro n act o t ha
    exact ha.slot_eq nofun

/-- While one indicator runs another one is refused, and to drop that gives nothing back. -/
theorem second_indicator_refused :
    let steps := [(none, .openIndicator 1 .stdout), (none, .openIndicator 2 .stderr),
      (none, .indicator 1 (.start "first"))]
    let s := (new (.new false false false) 0 false).run steps
    s.indicators.lookup 2 = some 2 ∧ s.terminal.indicators = [1] ∧ s.terminal.claimed = true ∧
      s.step (.indicator 2 (.start "second")) = (.outcome (.failed .displayActive), s) ∧
      (s.step (.dropIndicator 2)).2.terminal = s.terminal := by
  obtain ⟨-, -, hslots, -⟩ := indicators_exclude_each_other false false false 0 false
    [(none, .openIndicator 1 .stdout), (none, .openIndicator 2 .stderr),
      (none, .indicator 1 (.start "first"))]
  obtain ⟨hstart, -, -, hdrop⟩ := hslots 2 2 (by decide)
  refine ⟨by decide, by decide, by decide, ?_, ?_⟩
  · exact (hstart "second").trans ((if_neg (by decide)).trans (if_neg (by decide)))
  · exact hdrop.trans (if_neg (by decide))

end Session

end AgentConsole
