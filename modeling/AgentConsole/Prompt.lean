import AgentConsole.Disk.Basic
import AgentConsole.Text.Blank

/-!
# The system prompt

The system prompt is the one that the user gives, if that is not empty; else what the prompt file
holds, trimmed; else a default.  A prompt file that cannot be read is as good as none.
-/

namespace AgentConsole.Prompt

/-- The prompt when there is no other. -/
def defaultText : String := "You are a helpful assistant."

/-- The file in the working directory. -/
def fileName : String := ".prompt"

/-- The prompt that a file holds. -/
def fromFile (d : Disk) (path : String) : Option String :=
  if d.isFile path then (d.readText path).toOption.map Text.trim else none

/-- The system prompt. -/
def resolve (d : Disk) (path : String) (explicit : Option String) : String :=
  match explicit.filter (· ≠ "") with
  | some prompt => prompt
  | none => (fromFile d path).getD defaultText

end AgentConsole.Prompt
