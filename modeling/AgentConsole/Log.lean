/-!
# Log entries

What a part of the program has to tell apart from its results.
-/

namespace AgentConsole

/-- How important an entry is. -/
inductive Severity where
  | debug
  | info
  | warning
  | error
  deriving DecidableEq, Repr

/-- An entry of the log. -/
structure LogEntry where
  severity : Severity
  message : String
  /-- A text that a reader has refused.  The reader adds why, in words of its own. -/
  refused : Option String := none
  deriving DecidableEq, Repr

/-- The text of an entry, where the reader says `why` it refuses a text. -/
def LogEntry.text (why : String → String) (e : LogEntry) : String :=
  match e.refused with
  | none => e.message
  | some text => e.message ++ ": " ++ why text

end AgentConsole
