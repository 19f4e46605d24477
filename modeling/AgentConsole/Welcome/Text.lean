import AgentConsole.Request

/-!
# The welcome text

The welcome text greets the user and serves as a scratchpad for whoever starts a session in the same
directory.  It can be viewed and replaced.  What has been stored is shown under a marker of its own,
so that no stored text can pass for the default.
-/

namespace AgentConsole.Welcome

/-- What is shown while nothing is stored. -/
def defaultText : String :=
  "# Strands\n\n" ++
  "Agent progress is rendered live in this terminal:\n\n" ++
  "- a **thinking** indicator while the model works\n" ++
  "- one spinner per running tool, with its input size as it streams in\n" ++
  "- a final line per tool with its elapsed time\n\n" ++
  "## Commands\n\n" ++
  "- `strands replay <file>` replays recorded event-loop callbacks\n" ++
  "- `strands store <text>` saves a note to the knowledge base\n" ++
  "- `strands welcome edit --content <text>` replaces this text\n\n" ++
  "Edit this text to leave notes for the next session."

/-- The text as it is shown. -/
def present : Option String → String
  | some text => "*.*\n" ++ text
  | none => "*welcome to strands!*\n" ++ defaultText

/-- What can be done with the text. -/
inductive Action where
  | view
  | edit (content : String)
  deriving DecidableEq, Repr

/-- An action by its name and, for an edit, its content. -/
def Action.parse (name : String) (content : Option String) : Except RequestError Action :=
  if name = "view" then .ok .view
  else if name = "edit" then
    match content with
    | some content => .ok (.edit content)
    | none => .error .missingWelcomeContent
  else .error (.unknownWelcomeAction name)

/-- What has come of an action. -/
inductive Reply where
  | viewed (text : String)
  | updated
  deriving DecidableEq, Repr

/-- A reply as the user sees it. -/
def Reply.message : Reply → String
  | .viewed text => text
  | .updated => "Welcome text updated successfully"

end AgentConsole.Welcome
