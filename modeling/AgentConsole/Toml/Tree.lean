import AgentConsole.Toml.Basic

/-!
# Tables under construction

While a document is read, each of its tables remembers how it came about, because a table may be
defined only once: by its own header, or by the keys joined by dots that pass through it, but not by
both.  Arrays whose elements are tables with headers of their own grow at their end.

* `Toml.Node.along` : changes the table at the end of a path, and makes the tables on the way;
* `Toml.Node.insert`, `Toml.Node.define`, `Toml.Node.extend` : the three kinds of changes.
-/

namespace AgentConsole.Toml

/-- How a table came about. -/
inductive Origin where
  /-- By its header or braces, or as the root. -/
  | defined
  /-- On the way to another table's header; its own header may still come. -/
  | implied
  /-- By keys joined by dots. -/
  | dotted
  deriving DecidableEq

/-- What a key stands for while a document is read. -/
inductive Node where
  | value (v : Toml)
  | table (origin : Origin) (members : List (String × Node))
  /-- Tables with headers of their own, in order. -/
  | tables (elements : List (List (String × Node)))

namespace Node

/-- The members of a table. -/
abbrev Members := List (String × Node)

/-- Gives a key another value, in its place. -/
def replace (key : String) (node : Node) (members : Members) : Members :=
  members.map fun m ↦ if m.1 = key then (key, node) else m

/-- Gives a new key a value. -/
def add (key : String) (node : Node) (members : Members) : Members :=
  members ++ [(key, node)]

/-- Changes the table at the end of a path, where `byDots` says whether keys joined by dots lead
there.  Such keys do not pass through tables that are defined. -/
def along (byDots : Bool) (change : Origin → Members → Option Members) (origin : Origin)
    (members : Members) : List String → Option Members
  | [] => change origin members
  | key :: path =>
    match members.lookup key with
    | none =>
      let origin := if byDots then .dotted else .implied
      (along byDots change origin [] path).map fun sub ↦ add key (.table origin sub) members
    | some (.value _) => none
    | some (.table origin sub) =>
      if byDots && origin = .defined then none
      else (along byDots change origin sub path).map fun sub ↦
        replace key (.table origin sub) members
    | some (.tables elements) =>
      elements.getLast?.bind fun last ↦
        (along byDots change .defined last path).map fun last ↦
          replace key (.tables (elements.dropLast ++ [last])) members

/-- Gives the last of some keys joined by dots a value, in a table that is defined.  The key must be
new, and its table must have come about by dots exactly if there are any. -/
def insert (keys : List String) (v : Toml) (members : Members) : Option Members :=
  match keys.getLast? with
  | none => none
  | some key =>
    let path := keys.dropLast
    along true (fun origin members ↦
      if (decide (origin = .dotted)) = path.isEmpty then none
      else if (members.lookup key).isSome then none
      else some (add key (.value v) members)) .defined members path

/-- Changes the table to which the keys before the last of a header lead. -/
def atHeader (keys : List String) (change : String → Members → Option Members)
    (members : Members) :
    Option Members :=
  match keys.getLast? with
  | none => none
  | some key => along false (fun _ ↦ change key) .defined members keys.dropLast

/-- Defines the table of a header. -/
def define (keys : List String) : Members → Option Members :=
  atHeader keys fun key members ↦
    match members.lookup key with
    | none => some (add key (.table .defined []) members)
    | some (.table .implied sub) => some (replace key (.table .defined sub) members)
    | some _ => none

/-- Adds an element to the array of a header. -/
def extend (keys : List String) : Members → Option Members :=
  atHeader keys fun key members ↦
    match members.lookup key with
    | none => some (add key (.tables [[]]) members)
    | some (.tables elements) => some (replace key (.tables (elements ++ [[]])) members)
    | some _ => none

/-! ## Finished tables -/

mutual

/-- The finished value. -/
def finish : Node → Toml
  | .value v => v
  | .table _ members => .table (finishMembers members)
  | .tables elements => .array (finishTables elements)

/-- The finished members of a table. -/
def finishMembers : List (String × Node) → Toml.Members
  | [] => []
  | (key, node) :: rest => (key, finish node) :: finishMembers rest

/-- The finished elements of an array of tables. -/
def finishTables : List (List (String × Node)) → List Toml
  | [] => []
  | members :: rest => .table (finishMembers members) :: finishTables rest

end

end Node

end AgentConsole.Toml
