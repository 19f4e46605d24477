import AgentConsole.Callback.Basic
import AgentConsole.Chat.Codec
import AgentConsole.Json.Reader

/-!
# Callbacks in JSON

A message or a tool update of the wrong shape does not spoil the callback that carries it: as long
as it is a sound value, it is kept in normal form.

* `Callback.read?` and `Callback.write` : the text of a callback.
-/

namespace AgentConsole

/-- The containers that a text may nest. -/
def Json.depthLimit : Nat := 127

namespace Console

/-- A console by its name. -/
def ofName? (name : String) : Option Console :=
  if name = "stdout" then some .stdout else if name = "stderr" then some .stderr else none

/-- The name of a console. -/
def name : Console → String
  | .stdout => "stdout"
  | .stderr => "stderr"

@[simp] theorem ofName?_name (c : Console) : ofName? c.name = some c := by cases c <;> rfl

def ofJson? (j : Json) : Option Console := j.asVariant.bind ofName?

def toJson (c : Console) : Json := .string c.name

end Console

namespace Payload

variable {α : Type}

/-- Any sound value; whether it has the right shape is for `read` to say. -/
def ofJson? (room : Nat) (read : Json → Option α) (j : Json) : Option (Payload α) :=
  if j.sound room then
    some (match read j with
      | some value => .valid value
      | none => .malformed j.normal)
  else none

def toJson (write : α → Json) : Payload α → Json
  | valid value => write value
  | malformed raw => raw

end Payload

namespace ToolUpdate

/-- The fields of a tool update. -/
def fields : List (List String) := [["toolUseId"], ["name"], ["input"]]

/-- Input as text.  It mostly arrives as a piece of JSON text; any other value stands for its text,
and a value without content for none. -/
def inputText : Json → String
  | .null => ""
  | .string s => s
  | .object [] => ""
  | .array [] => ""
  | j => j.text

def ofJson? (room : Nat) (j : Json) : Option ToolUpdate := do
  match ← j.slots? fields with
  | [id, name, input] =>
    return { id := ← Json.optional Json.asString id
             name := ← Json.optional Json.asString name
             input := ←
               Json.defaulted "" (fun j ↦ (Json.asValue (room - 1) j).map inputText) input }
  | _ => none

def toJson (u : ToolUpdate) : Json :=
  .object (Json.member "toolUseId" (u.id.map .string) ++ Json.member "name" (u.name.map .string) ++
    [("input", .string u.input)])

end ToolUpdate

namespace Callback

/-- The fields of a callback. -/
def fields : List (List String) :=
  [["reasoningText", "reasoning_text"], ["data"], ["complete"], ["force_stop"], ["message"],
    ["current_tool_use"], ["init_event_loop"], ["start_event_loop"],
    ["event_loop_throttled_delay"], ["console"]]

def ofJson? (room : Nat) (j : Json) : Option Callback := do
  match ← j.slots? fields with
  | [reasoning, data, complete, forceStop, message, tool, initLoop, startLoop, delay, console] =>
    return { reasoningText := ← Json.optional Json.asString reasoning
             data := ← Json.optional Json.asString data
             complete := ← Json.defaulted false Json.asBool complete
             forceStop := ← Json.defaulted false Json.asBool forceStop
             message := ← Json.optional
               (Payload.ofJson? (room - 1) (Message.ofJson? (room - 1))) message
             tool := ← Json.optional
               (Payload.ofJson? (room - 1) (ToolUpdate.ofJson? (room - 1))) tool
             initLoop := ← Json.defaulted false Json.asBool initLoop
             startLoop := ← Json.defaulted false Json.asBool startLoop
             throttledDelay := ← Json.optional Json.asFloat delay
             console := ← Json.optional Console.ofJson? console }
  | _ => none

def toJson (c : Callback) : Json :=
  .object (Json.member "reasoningText" (c.reasoningText.map .string) ++
    Json.member "data" (c.data.map .string) ++
    [("complete", .bool c.complete), ("force_stop", .bool c.forceStop)] ++
    Json.member "message" (c.message.map (Payload.toJson Message.toJson)) ++
    Json.member "current_tool_use" (c.tool.map (Payload.toJson ToolUpdate.toJson)) ++
    [("init_event_loop", .bool c.initLoop), ("start_event_loop", .bool c.startLoop)] ++
    Json.member "event_loop_throttled_delay"
      (c.throttledDelay.map fun d ↦ .number (.float d)) ++
    Json.member "console" (c.console.map Console.toJson))

/-- The callback that a text stands for. -/
def read? (s : String) : Option Callback :=
  (Json.parse? s).bind (ofJson? Json.depthLimit)

/-- The text of a callback. -/
def write (c : Callback) : String :=
  c.toJson.text

end Callback

/-- The message that a text stands for. -/
def Message.read? (s : String) : Option Message :=
  (Json.parse? s).bind (ofJson? Json.depthLimit)

/-- The text of a message. -/
def Message.write (m : Message) : String :=
  m.toJson.text

/-- The tool update that a text stands for. -/
def ToolUpdate.read? (s : String) : Option ToolUpdate :=
  (Json.parse? s).bind (ofJson? Json.depthLimit)

end AgentConsole
