import AgentConsole.Display.Basic
import AgentConsole.Json.Printer
import AgentConsole.Log
import AgentConsole.Tool.Tracking

/-!
# The stage of a presenter

A presenter holds at most one thinking indicator and at most one tool spinner, and tracks the tools
that are running.  While it handles a callback it stands on a `Stage`: beside itself there are the
world of its display, the number of displays opened there so far, what it has called for, and what
it has remarked.  Rendering that fails is remarked and otherwise ignored.
-/

namespace AgentConsole

/-- The state of a presenter. -/
structure Presenter where
  /-- Whether it sends a notification when a tool has ended. -/
  notifies : Bool
  /-- The indicator it holds. -/
  indicator : Option Nat
  /-- The spinner it holds. -/
  spinner : Option Nat
  /-- The tool whose spinner it holds. -/
  current : Option ToolId
  /-- The tools that are running. -/
  tools : Tools

/-- A presenter that has handled nothing. -/
def Presenter.new (notifies : Bool) : Presenter :=
  { notifies, indicator := none, spinner := none, current := none, tools := [] }

/-- What was being rendered when it failed. -/
inductive Rendering where
  | reasoning
  | spinnerStop
  | throttleNotice
  | indicatorStop
  | output
  | spinnerStart
  | spinnerUpdate
  | spinnerInfo
  | spinnerResult
  deriving DecidableEq, Repr

/-- The name of what was being rendered. -/
def Rendering.name : Rendering → String
  | .reasoning => "reasoning"
  | .spinnerStop => "tool spinner stop"
  | .throttleNotice => "throttle notice"
  | .indicatorStop => "thinking indicator stop"
  | .output => "output"
  | .spinnerStart => "tool spinner start"
  | .spinnerUpdate => "tool spinner update"
  | .spinnerInfo => "tool spinner info"
  | .spinnerResult => "tool spinner result"

/-- What a presenter remarks. -/
inductive Remark where
  /-- An indicator could not do what it should. -/
  | overlap (fault : Fault)
  /-- Something could not be rendered. -/
  | notRendered (what : Rendering) (fault : Fault)
  /-- The tool of a callback has the wrong shape. -/
  | malformedTool (raw : Json)
  /-- The message of a callback has the wrong shape. -/
  | malformedMessage (raw : Json)
  /-- A tool update lacks the identifier or the name. -/
  | incompleteUpdate
  /-- A tool is being tracked from now on. -/
  | tracking (name : String) (id : ToolId)
  /-- A call lacks the name of the tool. -/
  | namelessCall
  /-- A result lacks the identifier of the tool. -/
  | anonymousResult
  /-- A result belongs to no tracked tool. -/
  | untracked (id : ToolId)

/-- How important a remark is. -/
def Remark.severity : Remark → Severity
  | .overlap _ | .notRendered _ _ | .tracking _ _ | .untracked _ => .debug
  | .malformedTool _ | .malformedMessage _ | .incompleteUpdate | .namelessCall
  | .anonymousResult => .warning

/-- What a remark says. -/
def Remark.message : Remark → String
  | .overlap fault => "Ignoring indicator overlap: " ++ fault.message
  | .notRendered what fault => "Rendering " ++ what.name ++ " failed: " ++ fault.message
  | .malformedTool raw => "Skipping malformed current_tool_use: " ++ raw.text
  | .malformedMessage raw => "Skipping malformed message: " ++ raw.text
  | .incompleteUpdate => "Skipping current_tool_use without toolUseId or name"
  | .tracking name id => "Tracking tool " ++ name ++ " (" ++ id ++ ")"
  | .namelessCall => "Skipping toolUse without a name"
  | .anonymousResult => "Skipping toolResult without a toolUseId"
  | .untracked id => "Ignoring result for untracked tool " ++ id

/-- A remark in the log. -/
def Remark.entry (r : Remark) : LogEntry where
  severity := r.severity
  message := r.message

/-- A presenter at work. -/
structure Stage (World : Type) where
  presenter : Presenter
  /-- How many displays have been opened in the world. -/
  opened : Nat
  world : World
  /-- The calls made, in order. -/
  events : List Event
  /-- The remarks made, in order. -/
  remarks : List Remark

namespace Stage

variable {World : Type}

/-- A presenter about to work in a world. -/
def enter (presenter : Presenter) (opened : Nat) (world : World) : Stage World :=
  { presenter, opened, world, events := [], remarks := [] }

/-- Makes a remark. -/
def remark (r : Remark) (s : Stage World) : Stage World :=
  { s with remarks := s.remarks ++ [r] }

/-- Makes a call. -/
def call (d : Display World) (c : Call) (s : Stage World) : Outcome × Stage World :=
  let answer := d.respond c s.world
  (answer.1, { s with world := answer.2, events := s.events ++ [⟨c, answer.1⟩] })

/-- Makes a call that renders something; a failure is remarked. -/
def render (d : Display World) (what : Rendering) (c : Call) (s : Stage World) : Stage World :=
  match s.call d c with
  | (.ok, s) => s
  | (.failed fault, s) => s.remark (.notRendered what fault)

/-- Makes a call to an indicator, and says whether it succeeded.  A failure is remarked: that
indicators overlap is to be expected. -/
def tolerate (d : Display World) (c : Call) (s : Stage World) : Bool × Stage World :=
  match s.call d c with
  | (.ok, s) => (true, s)
  | (.failed fault, s) => (false, s.remark (.overlap fault))

/-- Opens a display. -/
def openDisplay (d : Display World) (c : Nat → Call) (s : Stage World) : Nat × Stage World :=
  let n := s.opened + 1
  (n, { (s.call d (c n)).2 with opened := n })

end Stage

end AgentConsole
