import AgentConsole.Chat.Message
import AgentConsole.Json.Fields
import AgentConsole.Json.Printer

/-!
# Messages in JSON

Reading and writing of messages and their parts, a reader and a writer for each.  A reader is told
how many containers its value may nest, which matters for the inputs of tools and the contents of
results: these are arbitrary values.  Fields without a value are left out, and roles and statuses
beyond the known ones are kept only as such.
-/

namespace AgentConsole

/-! ## Roles and statuses -/

namespace Role

/-- A role by its name. -/
def ofName (name : String) : Role :=
  if name = "user" then .user else if name = "assistant" then .assistant else .other

/-- The name of a role. -/
def name : Role → String
  | .user => "user"
  | .assistant => "assistant"
  | .other => "other"

@[simp] theorem ofName_name (r : Role) : ofName r.name = r := by cases r <;> rfl

def ofJson? (j : Json) : Option Role := j.asVariant.map ofName

def toJson (r : Role) : Json := .string r.name

end Role

namespace ToolStatus

/-- A status by its name. -/
def ofName (name : String) : ToolStatus :=
  if name = "success" then .success else if name = "error" then .error else .unknown

/-- The name of a status. -/
def name : ToolStatus → String
  | .success => "success"
  | .error => "error"
  | .unknown => "unknown"

@[simp] theorem ofName_name (s : ToolStatus) : ofName s.name = s := by cases s <;> rfl

def ofJson? (j : Json) : Option ToolStatus := j.asVariant.map ofName

def toJson (s : ToolStatus) : Json := .string s.name

end ToolStatus

/-! ## Calls and results -/

namespace ToolCall

/-- The fields of a call. -/
def fields : List (List String) := [["toolUseId"], ["name"], ["input"]]

def ofJson? (room : Nat) (j : Json) : Option ToolCall := do
  match ← j.slots? fields with
  | [id, name, input] =>
    return { id := ← Json.optional Json.asString id
             name := ← Json.optional Json.asString name
             input := ← Json.defaulted .null (Json.asValue (room - 1)) input }
  | _ => none

def toJson (c : ToolCall) : Json :=
  .object (Json.member "toolUseId" (c.id.map .string) ++ Json.member "name" (c.name.map .string) ++
    [("input", c.input)])

end ToolCall

namespace ToolResult

/-- The fields of a result. -/
def fields : List (List String) := [["toolUseId"], ["status"], ["content"]]

def ofJson? (room : Nat) (j : Json) : Option ToolResult := do
  match ← j.slots? fields with
  | [id, status, content] =>
    return { id := ← Json.optional Json.asString id
             status := ← Json.optional ToolStatus.ofJson? status
             content := ← Json.defaulted [] (Json.asList (Json.asValue (room - 2))) content }
  | _ => none

def toJson (r : ToolResult) : Json :=
  .object (Json.member "toolUseId" (r.id.map .string) ++
    Json.member "status" (r.status.map ToolStatus.toJson) ++
    Json.member "content" (if r.content.isEmpty then none else some (.array r.content)))

end ToolResult

/-! ## Reasoning -/

namespace ReasoningText

/-- The field of a reasoning text. -/
def fields : List (List String) := [["text"]]

def ofJson? (j : Json) : Option ReasoningText := do
  match ← j.slots? fields with
  | [text] => return { text := ← Json.optional Json.asString text }
  | _ => none

def toJson (r : ReasoningText) : Json :=
  .object (Json.member "text" (r.text.map .string))

end ReasoningText

namespace Reasoning

/-- The field of a block's reasoning. -/
def fields : List (List String) := [["reasoningText"]]

def ofJson? (j : Json) : Option Reasoning := do
  match ← j.slots? fields with
  | [content] => return { content := ← Json.optional ReasoningText.ofJson? content }
  | _ => none

def toJson (r : Reasoning) : Json :=
  .object (Json.member "reasoningText" (r.content.map ReasoningText.toJson))

end Reasoning

/-! ## Blocks and messages -/

namespace Block

/-- The fields of a block. -/
def fields : List (List String) := [["text"], ["reasoningContent"], ["toolUse"], ["toolResult"]]

def ofJson? (room : Nat) (j : Json) : Option Block := do
  match ← j.slots? fields with
  | [text, reasoning, call, result] =>
    return { text := ← Json.optional Json.asString text
             reasoning := ← Json.optional Reasoning.ofJson? reasoning
             call := ← Json.optional (ToolCall.ofJson? (room - 1)) call
             result := ← Json.optional (ToolResult.ofJson? (room - 1)) result }
  | _ => none

def toJson (b : Block) : Json :=
  .object (Json.member "text" (b.text.map .string) ++
    Json.member "reasoningContent" (b.reasoning.map Reasoning.toJson) ++
    Json.member "toolUse" (b.call.map ToolCall.toJson) ++
    Json.member "toolResult" (b.result.map ToolResult.toJson))

end Block

namespace Message

/-- The fields of a message. -/
def fields : List (List String) := [["role"], ["content"]]

def ofJson? (room : Nat) (j : Json) : Option Message := do
  match ← j.slots? fields with
  | [role, content] =>
    return { role := ← Json.required Role.ofJson? role
             content := ← Json.defaulted [] (Json.asList (Block.ofJson? (room - 2))) content }
  | _ => none

def toJson (m : Message) : Json :=
  .object [("role", m.role.toJson), ("content", .array (m.content.map Block.toJson))]

end Message

end AgentConsole
