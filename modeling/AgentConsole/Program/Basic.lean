import AgentConsole.CommandLine.Basic
import AgentConsole.Disk.Basic
import AgentConsole.Knowledge.Store
import AgentConsole.Settings.Basic

/-!
# Runs of the program

What the program finds when it starts, and what is left when it ends.  Its output comes in pieces
with pauses between them, so that a recorded session can be replayed at a pace of its own.
-/

namespace AgentConsole

/-- What the program finds. -/
structure Surroundings where
  disk : Disk
  /-- The variables of the environment. -/
  environment : String → Option String
  /-- The standard input, as far as it can be read. -/
  input : Except IoError Bytes
  /-- For a document that is stored. -/
  stamp : Stamp
  /-- The time at which a document is stored. -/
  timestamp : String

/-- Output and the milliseconds to wait after it. -/
structure Piece where
  stdout : String
  stderr : String
  pause : Nat
  deriving DecidableEq, Repr

/-- Why the program failed. -/
inductive ProgramError where
  | settings (e : SettingsError)
  | request (e : RequestError)
  | storing (e : StoreError)
  /-- The welcome text could not be read or written. -/
  | welcome (e : IoError)
  /-- A recorded session could not be read. -/
  | callbacks (e : IoError)
  /-- A file holds no chat message. -/
  | message (path : String)
  | io (e : IoError)
  deriving DecidableEq, Repr

/-- The wording of an error. -/
def ProgramError.text : ProgramError → String
  | .settings e => "Failed to load configuration: " ++ e.message
  | .request e => e.message
  | .storing e => e.message
  | .welcome e => "Welcome text I/O error: " ++ e.message
  | .callbacks e => "Failed to read callback records: " ++ e.message
  | .message path => "Invalid chat message in " ++ path
  | .io e => e.message

/-- What a run leaves. -/
structure Run where
  pieces : List Piece
  error : Option ProgramError
  disk : Disk

namespace Run

/-- A run that says something and succeeds. -/
def say (text : String) (d : Disk) : Run :=
  { pieces := [⟨text, "", 0⟩], error := none, disk := d }

/-- A run that says nothing and succeeds. -/
def silent (d : Disk) : Run :=
  { pieces := [], error := none, disk := d }

/-- A run that fails before it says anything. -/
def fail (e : ProgramError) (d : Disk) : Run :=
  { pieces := [], error := some e, disk := d }

/-- Everything that is written to the standard output. -/
def stdout (r : Run) : String :=
  "".intercalate (r.pieces.map (·.stdout))

/-- The exit code. -/
def exitCode (r : Run) : Nat :=
  if r.error.isSome then 1 else 0

end Run

end AgentConsole
