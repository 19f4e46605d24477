/-!
# TOML values

What a TOML document is made of.  Of numbers with a fraction and of dates only the text is kept.

* `Toml.merge` : two values laid over each other; tables are merged key by key, and of other values
  the upper one counts.
-/

namespace AgentConsole

/-- TOML values. -/
inductive Toml where
  | string (s : String)
  | integer (n : Int)
  | float (text : String)
  | bool (b : Bool)
  | date (text : String)
  | array (items : List Toml)
  | table (members : List (String × Toml))

namespace Toml

/-- The members of a table.  Keys are unique. -/
abbrev Members := List (String × Toml)

/-- The members of a value that is taken for a table.  A date counts as a table without members that
anyone asks for. -/
def members? : Toml → Option Members
  | .table members => some members
  | .date _ => some []
  | _ => none

mutual

/-- Lays a value over another. -/
def merge (lower upper : Toml) : Toml :=
  match upper with
  | .table members =>
    match lower.members? with
    | some below => .table (mergeMembers below members)
    | none => .table members
  | .date text =>
    match lower.members? with
    | some below => .table below
    | none => .date text
  | .string s => .string s
  | .integer n => .integer n
  | .float text => .float text
  | .bool b => .bool b
  | .array items => .array items

/-- Lays the members of a table over those of another, one after the other. -/
def mergeMembers (lower : Members) : Members → Members
  | [] => lower
  | (key, value) :: rest =>
    let merged := match lower.lookup key with
      | some below => merge below value
      | none => value
    mergeMembers ((key, merged) :: lower.filter (·.1 ≠ key)) rest

end

end Toml

end AgentConsole
