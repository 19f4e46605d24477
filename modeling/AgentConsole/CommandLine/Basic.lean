/-!
# Command lines

What the user can ask for on the command line, and why a command line is refused.
-/

namespace AgentConsole

/-- What the program is to do. -/
inductive Command where
  /-- Replays a recorded session, with so many milliseconds after each callback. -/
  | replay (file : String) (pace : Nat)
  | welcome (action : String) (content : Option String)
  | store (content : String) (title : Option String)
  | storeConversation (user : String) (response : Option String)
  | prompt
  deriving DecidableEq, Repr

/-- A command line that has been understood. -/
structure Arguments where
  verbosity : Nat
  /-- The settings file that is asked for by name. -/
  config : Option String
  /-- Whether no settings file is to be read. -/
  noConfig : Bool
  /-- Whether only the places of the settings files are to be shown. -/
  showConfig : Bool
  knowledgeBase : Option String
  systemPrompt : Option String
  noColor : Bool
  command : Option Command
  deriving DecidableEq, Repr

/-- Why a command line ends the program at once. -/
inductive UsageError where
  | unknownArgument (arg : String)
  | unknownCommand (name : String)
  /-- An option without its value, or with an empty one that cannot be. -/
  | missingValue (option : String)
  | wrongValue (option value : String)
  /-- An option that is given twice. -/
  | repeated (option : String)
  /-- A value for an option that takes none. -/
  | unwantedValue (option value : String)
  | missingArgument (name : String)
  /-- The user asks for help. -/
  | help
  /-- The user asks for the version. -/
  | version
  deriving DecidableEq, Repr

namespace UsageError

/-- The version of the program. -/
def versionText : String := "strands 0.1.0"

/-- What is said to the user. -/
def message : UsageError → String
  | .unknownArgument arg => "unexpected argument '" ++ arg ++ "'"
  | .unknownCommand name => "unrecognized command '" ++ name ++ "'"
  | .missingValue option => "a value is required for '" ++ option ++ "'"
  | .wrongValue option value => "invalid value '" ++ value ++ "' for '" ++ option ++ "'"
  | .repeated option => "the argument '" ++ option ++ "' cannot be used multiple times"
  | .unwantedValue option value => "unexpected value '" ++ value ++ "' for '" ++ option ++ "'"
  | .missingArgument name => "the required argument '" ++ name ++ "' was not provided"
  | .help =>
    "Usage: strands [OPTIONS] [COMMAND]\n\n" ++
    "Commands: replay, welcome, store, store-conversation, prompt, help\n\n" ++
    "Options: -v, --verbose; --config <PATH>; --no-config; --show-config; --kb <ID>;\n" ++
    "         --system-prompt <TEXT>; --no-color; -h, --help; -V, --version"
  | .version => versionText

/-- Whether the user has got what was asked for. -/
def isAnswer : UsageError → Bool
  | .help => true
  | .version => true
  | _ => false

/-- The exit code. -/
def exitCode (e : UsageError) : Nat :=
  if e.isAnswer then 0 else 2

end UsageError

end AgentConsole
