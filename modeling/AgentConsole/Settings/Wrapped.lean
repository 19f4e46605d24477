import AgentConsole.Toml.Basic

/-!
# Wrapped values

A settings file may wrap a value into a table: a table that gives a value to a certain key stands
for that value, and whatever else it holds is passed over.  Another key marks where a wrapped value
came from.  No TOML value is such a mark, so a file that uses the key is not accepted.  Both keys
only mean something in tables that are values themselves, and not at the top of a file.

* `Settings.unwrapMembers?` : the table of a file without wrapping.
-/

namespace AgentConsole.Settings

/-- The key of a wrapped value. -/
def wrappedKey : String := "___figment_value_value"

/-- The key of a mark. -/
def markKey : String := "___figment_value_id"

/-- What a table stands for, when its members are unwrapped. -/
def unwrapTable? (members : Toml.Members) : Option Toml :=
  if (members.lookup markKey).isSome then none
  else some ((members.lookup wrappedKey).getD (.table members))

mutual

/-- A value without wrapping. -/
def unwrap? : Toml → Option Toml
  | .table members => (unwrapMembers? members).bind unwrapTable?
  | .array items => (unwrapItems? items).map .array
  | .string s => some (.string s)
  | .integer n => some (.integer n)
  | .float text => some (.float text)
  | .bool b => some (.bool b)
  | .date text => some (.date text)

/-- The members of a table, each without wrapping. -/
def unwrapMembers? : List (String × Toml) → Option Toml.Members
  | [] => some []
  | (key, value) :: rest => do return (key, ← unwrap? value) :: (← unwrapMembers? rest)

/-- The items of an array, each without wrapping. -/
def unwrapItems? : List Toml → Option (List Toml)
  | [] => some []
  | item :: rest => do return (← unwrap? item) :: (← unwrapItems? rest)

end

end AgentConsole.Settings
