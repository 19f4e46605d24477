import AgentConsole.Disk.Basic
import AgentConsole.Welcome.Text

/-!
# Keeping the welcome text

The welcome text is kept in a file of the working directory; while that is not there, nothing has
been stored.
-/

namespace AgentConsole.Welcome

/-- Where the text is kept: a function to read it and one to replace it, on a world of their own. -/
structure Store (World : Type) where
  read : World → Except IoError (Option String)
  write : String → World → Except IoError World

namespace Store

/-- A store that just remembers the text. -/
def memory : Store (Option String) :=
  ⟨.ok, fun text _ ↦ .ok (some text)⟩

/-- The text in a file, if there is one. -/
def readFile (path : String) (d : Disk) : Except IoError (Option String) :=
  match d.readText path with
  | .ok text => .ok (some text)
  | .error .notFound => .ok none
  | .error e => .error e

/-- A store that keeps the text in a file. -/
def file (path : String) : Store Disk :=
  ⟨readFile path, fun text d ↦ d.write path (Text.encode text)⟩

/-- The file in the working directory. -/
def fileName : String := ".welcome"

/-- Carries out an action. -/
def perform {World : Type} (s : Store World) (a : Action) (w : World) :
    Except IoError (Reply × World) :=
  match a with
  | .view => (s.read w).map fun stored ↦ (.viewed (present stored), w)
  | .edit content => (s.write content w).map fun w ↦ (.updated, w)

end Store

end AgentConsole.Welcome
