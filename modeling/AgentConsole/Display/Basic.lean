import AgentConsole.Callback.Basic

/-!
# Displays

A presenter shows two kinds of live displays, the indicator of a thinking model and the spinner of a
running tool, and writes plain text besides.  All it does to the outside is a `Call`, and every call
has an `Outcome`.  What a call does and how it ends is for a `Display` to say: a function on a world
of its own.  Displays opened on it are known by numbers.
-/

namespace AgentConsole

/-- The two kinds of streamed text. -/
inductive StreamKind where
  | reasoning
  | output
  deriving DecidableEq, Repr

/-- What can be done to an indicator. -/
inductive IndicatorAct where
  | start (label : String)
  | update (label : String)
  | stop
  deriving DecidableEq, Repr

/-- What can be done to a spinner.  The last lines `succeed`, `fail` and `info` stay. -/
inductive SpinnerAct where
  | start (label : String)
  | update (label : String)
  | succeed (label : String)
  | fail (label : String)
  | info (label : String)
  | stop
  deriving DecidableEq, Repr

/-- What a presenter does to the outside. -/
inductive Call where
  | openIndicator (n : Nat) (console : Console)
  | indicator (n : Nat) (act : IndicatorAct)
  | openSpinner (n : Nat)
  | spinner (n : Nat) (act : SpinnerAct)
  | stream (kind : StreamKind) (text : String) (endLine : Bool)
  | throttle (console : Console) (delay : Float)
  | notify (title : String) (message : String)

/-- Why a call failed. -/
inductive Fault where
  /-- Another live display is running. -/
  | displayActive
  /-- The terminal could not be written. -/
  | writeFailed (reason : String)
  deriving DecidableEq, Repr

/-- The wording of a fault. -/
def Fault.message : Fault → String
  | .displayActive => "Only one live display may be active at once"
  | .writeFailed reason => "Terminal write failed: " ++ reason

/-- How a call ended. -/
inductive Outcome where
  | ok
  | failed (fault : Fault)
  deriving DecidableEq, Repr

/-- Whether a call did what it should. -/
def Outcome.isOk : Outcome → Bool
  | .ok => true
  | .failed _ => false

/-- Something that carries out calls, with a state of its own. -/
structure Display (World : Type) where
  respond : Call → World → Outcome × World

/-- The display on which every call succeeds. -/
def Display.always : Display Unit :=
  ⟨fun _ _ ↦ (.ok, ())⟩

/-- A call and how it ended. -/
structure Event where
  call : Call
  outcome : Outcome

end AgentConsole
