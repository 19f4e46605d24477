import AgentConsole.Chat.Message
import AgentConsole.Text.Excerpt

/-!
# Callbacks

While an agent works, its event loop reports progress in callbacks.  A callback carries any subset
of a fixed set of fields: streamed text, the input of a tool as it grows, a finished message, and
signals of the loop itself.
-/

namespace AgentConsole

/-- The stream that an indicator or a notice is written to. -/
inductive Console where
  | stdout
  | stderr
  deriving DecidableEq, Repr

/-- A part of a callback that may not have the shape it should have; then its value is kept. -/
inductive Payload (α : Type) where
  | valid (value : α)
  | malformed (raw : Json)

/-- The input of a tool as far as the model has written it. -/
structure ToolUpdate where
  id : Option ToolId
  name : Option String
  input : String

namespace ToolUpdate

/-- Whether there is any input. -/
def hasInput (u : ToolUpdate) : Bool :=
  u.input ≠ ""

/-- The size of the input, in characters. -/
def size (u : ToolUpdate) : Nat :=
  Text.size u.input

end ToolUpdate

/-- One callback of the event loop. -/
structure Callback where
  /-- A further piece of reasoning. -/
  reasoningText : Option String
  /-- A further piece of output. -/
  data : Option String
  /-- Whether the output ends a streamed message. -/
  complete : Bool
  /-- Whether all live displays must stop. -/
  forceStop : Bool
  /-- A finished message. -/
  message : Option (Payload Message)
  /-- The tool whose input is being written. -/
  tool : Option (Payload ToolUpdate)
  /-- Whether the event loop is being set up. -/
  initLoop : Bool
  /-- Whether the event loop has begun to work. -/
  startLoop : Bool
  /-- The seconds for which the loop backs off. -/
  throttledDelay : Option Float
  /-- Where indicators and notices belong. -/
  console : Option Console

namespace Callback

/-- A callback that carries nothing. -/
def empty : Callback where
  reasoningText := none
  data := none
  complete := false
  forceStop := false
  message := none
  tool := none
  initLoop := false
  startLoop := false
  throttledDelay := none
  console := none

/-- The output of a callback; an empty piece is none. -/
def output? (c : Callback) : Option String :=
  c.data.filter (· ≠ "")

/-- The reasoning of a callback; an empty piece is none. -/
def reasoning? (c : Callback) : Option String :=
  c.reasoningText.filter (· ≠ "")

/-- The delay of a callback; only a positive one counts. -/
def throttle? (c : Callback) : Option Float :=
  c.throttledDelay.filter (0 < ·)

/-- Whether a callback says anything about a tool.  A payload of the wrong shape does so too. -/
def concernsTool (c : Callback) : Bool :=
  match c.tool with
  | some (.valid u) => u.id.isSome || u.name.isSome || u.hasInput
  | some (.malformed raw) => !raw.isNull
  | none => false

end Callback

end AgentConsole
