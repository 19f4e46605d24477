import AgentConsole.Json.Token

/-!
# Reading JSON texts

The tokens of a text are read with a stack of the containers that are still open.  Reading puts no
bound on their number.
-/

namespace AgentConsole.Json

/-- A container that is still open, with what stands before the current value, last first. -/
inductive Frame where
  | array (items : List Json)
  | object (members : List (Option String × Json)) (key : Option String)

/-- What may come next, inside the containers of a stack. -/
inductive Expectation where
  /-- A value. -/
  | value (stack : List Frame)
  /-- The first value of an array, or its end. -/
  | firstItem (stack : List Frame)
  /-- The first key of an object, or its end. -/
  | firstKey (stack : List Frame)
  /-- A further key. -/
  | key (members : List (Option String × Json)) (stack : List Frame)
  /-- The colon after a key. -/
  | colon (members : List (Option String × Json)) (key : Option String) (stack : List Frame)
  /-- What follows a complete value. -/
  | rest (value : Json) (stack : List Frame)

/-- The value of a string. -/
def ofContent : Option String → Json
  | some s => .string s
  | none => .void

/-- The object of some members; one of its keys may denote nothing. -/
def ofMembers (members : List (Option String × Json)) : Json :=
  match members.mapM fun m ↦ m.1.map fun key ↦ (key, m.2) with
  | some members => .object members
  | none => .void

/-- Reads a token where a value must start. -/
def beginValue (stack : List Frame) : Token → Option Expectation
  | .openArray => some (.firstItem stack)
  | .openObject => some (.firstKey stack)
  | .string content => some (.rest (ofContent content) stack)
  | .leaf value => some (.rest value stack)
  | _ => none

/-- Reads a token. -/
def stepToken : Expectation → Token → Option Expectation
  | .value stack, t => beginValue stack t
  | .firstItem stack, .closeArray => some (.rest (.array []) stack)
  | .firstItem stack, t => beginValue (.array [] :: stack) t
  | .firstKey stack, .closeObject => some (.rest (.object []) stack)
  | .firstKey stack, .string key => some (.colon [] key stack)
  | .key members stack, .string key => some (.colon members key stack)
  | .colon members key stack, .colon => some (.value (.object members key :: stack))
  | .rest v (.array items :: stack), .comma => some (.value (.array (v :: items) :: stack))
  | .rest v (.array items :: stack), .closeArray =>
    some (.rest (.array (v :: items).reverse) stack)
  | .rest v (.object members key :: stack), .comma => some (.key ((key, v) :: members) stack)
  | .rest v (.object members key :: stack), .closeObject =>
    some (.rest (ofMembers ((key, v) :: members).reverse) stack)
  | _, _ => none

/-- Reads the remaining tokens. -/
def parseFrom : Expectation → List Token → Option Json
  | .rest v [], [] => some v
  | _, [] => none
  | e, t :: ts => (stepToken e t).bind fun e ↦ parseFrom e ts

/-- The value that a text stands for, if it is one JSON value. -/
def read? (cs : List Char) : Option Json :=
  (tokens? cs).bind (parseFrom (.value []))

/-- The value of a text. -/
def parse? (s : String) : Option Json :=
  read? s.toList

end AgentConsole.Json
