import AgentConsole.Chat.Codec
import AgentConsole.Text.Excerpt

/-!
# Conversations to remember

What the user said and how the assistant answered, as a titled text.  The title begins with the
first words of the user.  Of the blocks of an answer the last reasoning and the last text count; an
empty one counts as none, but hides those before it.  An answer without text is kept in JSON.
-/

namespace AgentConsole

/-- A titled text. -/
structure Conversation where
  title : String
  content : String
  deriving DecidableEq, Repr

namespace Conversation

/-- The most characters of the user that a title takes. -/
def titleLimit : Nat := 50

/-- The title for what the user said. -/
def titleOf (user : String) : String :=
  let (start, cut) := Text.excerpt user titleLimit
  "Conversation: " ++ start ++ if cut then "..." else ""

/-- The reasoning and the text of an answer after a further block. -/
def takeBlock (soFar : Option String × Option String) (b : Block) :
    Option String × Option String :=
  match b.reasoningText, b.text with
  | some reasoning, _ => (some reasoning, soFar.2)
  | none, some text => (soFar.1, some text)
  | none, none => soFar

/-- The reasoning and the text of an answer, where there are such. -/
def parts (blocks : List Block) : Option String × Option String :=
  let (reasoning, text) := blocks.foldl takeBlock (none, none)
  (reasoning.filter (· ≠ ""), text.filter (· ≠ ""))

/-- What is kept of an answer. -/
def contentOf (user : String) (m : Message) : String :=
  "User: " ++ user ++ "\n\n" ++
    match parts m.content with
    | (some reasoning, some text) =>
      "Assistant Reasoning: " ++ reasoning ++ "\n\nAssistant Response: " ++ text
    | (none, some text) => "Assistant: " ++ text
    | (_, none) => "Assistant: " ++ if m.content.isEmpty then "" else m.toJson.text

/-- The conversation of what the user said and an answer, if there is one. -/
def compose (user : String) (answer : Option Message) : Conversation :=
  { title := titleOf user
    content := match answer with
      | none => "User: " ++ user
      | some m => contentOf user m }

end Conversation

end AgentConsole
