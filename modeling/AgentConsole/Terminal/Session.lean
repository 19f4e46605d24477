import AgentConsole.Presenter.Handle
import AgentConsole.Terminal.Basic

/-!
# Shared terminals

Several presenters may work on one terminal, each with callbacks of its own, and displays may be
driven by hand beside them.  Those are kept in numbered slots, one row of slots for indicators and
one for spinners.
-/

namespace AgentConsole

/-- A terminal with those who work on it. -/
structure Session where
  terminal : Terminal
  /-- How many displays have been opened. -/
  opened : Nat
  /-- The clock, in nanoseconds. -/
  clock : Nat
  presenters : List Presenter
  /-- The indicators driven by hand, by slot. -/
  indicators : List (Nat × Nat)
  /-- The spinners driven by hand, by slot. -/
  spinners : List (Nat × Nat)

/-- A step of a session. -/
inductive SessionStep where
  /-- Only the clock is set. -/
  | idle
  | deliver (presenter : Nat) (callback : Callback)
  | openIndicator (slot : Nat) (console : Console)
  | openSpinner (slot : Nat)
  | indicator (slot : Nat) (act : IndicatorAct)
  | spinner (slot : Nat) (act : SpinnerAct)
  | dropIndicator (slot : Nat)
  | dropSpinner (slot : Nat)
  | stream (kind : StreamKind) (text : String) (endLine : Bool)
  | throttle (console : Console) (delay : Float)
  | notify (title : String) (message : String)

/-- What a step results in. -/
inductive StepResult where
  | outcome (o : Outcome)
  | noSuchSlot
  /-- Whether there was something to drop. -/
  | dropped (found : Bool)
  /-- The presenter after a callback, and what it has remarked. -/
  | handled (presenter : Presenter) (remarks : List Remark)

namespace Session

/-- A session of so many presenters on a fresh terminal. -/
def new (terminal : Terminal) (presenters : Nat) (notifies : Bool) : Session :=
  { terminal, opened := 0, clock := 0, presenters := List.replicate presenters (.new notifies),
    indicators := [], spinners := [] }

/-- Slots without one of them. -/
def clear (slot : Nat) (slots : List (Nat × Nat)) : List (Nat × Nat) :=
  slots.filter (·.1 ≠ slot)

/-- Carries out a call. -/
def call (c : Call) (s : Session) : StepResult × Session :=
  let (outcome, terminal) := s.terminal.respond c
  (.outcome outcome, { s with terminal })

/-- Delivers a callback to a presenter. -/
def deliver (k : Nat) (c : Callback) (s : Session) : StepResult × Session :=
  match s.presenters[k]? with
  | none => (.noSuchSlot, s)
  | some p =>
    let stage := (Stage.enter p s.opened s.terminal).handle Terminal.display s.clock c
    (.handled stage.presenter stage.remarks,
      { s with
        terminal := stage.world
        opened := stage.opened
        presenters := s.presenters.set k stage.presenter })

/-- Drops the indicator of a slot, which stops it if it is running. -/
def dropIndicator (slot : Nat) (s : Session) : Session :=
  match s.indicators.lookup slot with
  | none => s
  | some n =>
    { s with terminal := s.terminal.stopIndicator n, indicators := clear slot s.indicators }

/-- Drops the spinner of a slot, which stops it if it is running. -/
def dropSpinner (slot : Nat) (s : Session) : Session :=
  match s.spinners.lookup slot with
  | none => s
  | some n => { s with terminal := s.terminal.stopSpinner n, spinners := clear slot s.spinners }

/-- Carries out a step. -/
def step (x : SessionStep) (s : Session) : StepResult × Session :=
  match x with
  | .idle => (.outcome .ok, s)
  | .deliver k c => s.deliver k c
  | .openIndicator slot console =>
    let n := s.opened + 1
    let (result, s) := s.call (.openIndicator n console)
    let s := s.dropIndicator slot
    (result, { s with opened := n, indicators := (slot, n) :: s.indicators })
  | .openSpinner slot =>
    let n := s.opened + 1
    let (result, s) := s.call (.openSpinner n)
    let s := s.dropSpinner slot
    (result, { s with opened := n, spinners := (slot, n) :: s.spinners })
  | .indicator slot act =>
    match s.indicators.lookup slot with
    | none => (.noSuchSlot, s)
    | some n => s.call (.indicator n act)
  | .spinner slot act =>
    match s.spinners.lookup slot with
    | none => (.noSuchSlot, s)
    | some n => s.call (.spinner n act)
  | .dropIndicator slot => (.dropped (s.indicators.lookup slot).isSome, s.dropIndicator slot)
  | .dropSpinner slot => (.dropped (s.spinners.lookup slot).isSome, s.dropSpinner slot)
  | .stream kind text endLine => s.call (.stream kind text endLine)
  | .throttle console delay => s.call (.throttle console delay)
  | .notify title message => s.call (.notify title message)

/-- Sets the clock and carries out a step. -/
def stepAt (clock : Option Nat) (x : SessionStep) (s : Session) : StepResult × Session :=
  Session.step x { s with clock := clock.getD s.clock }

end Session

end AgentConsole
