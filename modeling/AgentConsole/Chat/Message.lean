import AgentConsole.Json.Basic

/-!
# Chat messages

What a model and its tools say to each other: messages of a role, made of blocks.  A block holds
text, reasoning, a call of a tool or the result of one; normally just one of these.
-/

namespace AgentConsole

/-- The identifier that ties the result of a tool to its call. -/
abbrev ToolId := String

/-- Who speaks. -/
inductive Role where
  | user
  | assistant
  | other
  deriving DecidableEq, Repr

/-- How a tool says that it ended. -/
inductive ToolStatus where
  | success
  | error
  | unknown
  deriving DecidableEq, Repr

/-- A tool that the assistant asks for. -/
structure ToolCall where
  id : Option ToolId
  name : Option String
  input : Json

/-- What a tool answers. -/
structure ToolResult where
  id : Option ToolId
  status : Option ToolStatus
  content : List Json

/-- Only an explicit success counts as one. -/
def ToolResult.succeeded (r : ToolResult) : Bool :=
  r.status = some .success

/-- The text of some reasoning. -/
structure ReasoningText where
  text : Option String

/-- The reasoning of a block. -/
structure Reasoning where
  content : Option ReasoningText

/-- A block of a message. -/
structure Block where
  text : Option String
  reasoning : Option Reasoning
  call : Option ToolCall
  result : Option ToolResult

namespace Block

/-- A block of nothing. -/
def empty : Block := ⟨none, none, none, none⟩

/-- A block of text. -/
def ofText (text : String) : Block :=
  { empty with text := some text }

/-- A block of reasoning. -/
def ofReasoning (text : String) : Block :=
  { empty with reasoning := some ⟨some ⟨some text⟩⟩ }

/-- A block with a call of a tool, without input. -/
def ofCall (id : ToolId) (name : String) : Block :=
  { empty with call := some ⟨some id, some name, .null⟩ }

/-- A block with the result of a tool, without content. -/
def ofResult (id : ToolId) (status : ToolStatus) : Block :=
  { empty with result := some ⟨some id, some status, []⟩ }

/-- The reasoning text of a block, if it has one. -/
def reasoningText (b : Block) : Option String :=
  b.reasoning.bind fun r ↦ r.content.bind fun t ↦ t.text

end Block

/-- A finished message. -/
structure Message where
  role : Role
  content : List Block

namespace Message

/-- The tools that a message asks for, in order. -/
def calls (m : Message) : List ToolCall :=
  m.content.filterMap Block.call

/-- The results that a message brings, in order. -/
def results (m : Message) : List ToolResult :=
  m.content.filterMap Block.result

end Message

end AgentConsole
