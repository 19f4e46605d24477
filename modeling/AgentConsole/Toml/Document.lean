import AgentConsole.Toml.Value

/-!
# TOML documents

A document is a series of lines, each of which gives a key a value, opens a table, or is empty.
Pairs belong to the table opened last.

* `Toml.expressions?` : the lines that say something;
* `Toml.assemble` : the table that they describe;
* `Toml.parse?` : a whole document.
-/

namespace AgentConsole.Toml

/-- What a line of a document says. -/
inductive Expression where
  | pair (keys : List String) (value : Toml)
  /-- The header of a table. -/
  | table (keys : List String)
  /-- The header of an element of an array of tables. -/
  | element (keys : List String)

/-! ## Lines -/

/-- The header of a line, if it has one. -/
def header? : Reader Expression
  | '[' :: '[' :: rest => do
    let (keys, rest) ← keys? rest
    return (.element keys, ← mark? ']' (← mark? ']' rest))
  | '[' :: rest => do
    let (keys, rest) ← keys? rest
    return (.table keys, ← mark? ']' rest)
  | _ => none

/-- The expression at the start of a text. -/
def expression? (cs : List Char) : Option (Expression × List Char) :=
  if cs.head? = some '[' then header? cs
  else (pair? value? cs).map fun r ↦ (.pair r.1.1 r.1.2, r.2)

/-- What the next line says, if anything, and the lines after it. -/
def line? (cs : List Char) : Option (Option Expression × List Char) :=
  match endLine? cs with
  | some rest => some (none, rest)
  | none => do
    let (e, rest) ← expression? (skipBlanks cs)
    return (some e, ← endLine? rest)

/-- The expressions of a text. -/
def expressions? (cs : List Char) : Option (List Expression) :=
  if cs.isEmpty then some []
  else
    match line? cs with
    | none => none
    | some (e, rest) =>
      if rest.length < cs.length then (expressions? rest).map (e.toList ++ ·) else none
termination_by cs.length

/-! ## The table of a document -/

/-- The table opened last, by its keys, and everything read so far. -/
structure Assembly where
  opened : List String
  members : Node.Members

namespace Assembly

/-- Takes up an expression. -/
def add (a : Assembly) : Expression → Option Assembly
  | .pair keys v =>
    (Node.along false (fun _ members ↦ Node.insert keys v members) .defined
      a.members a.opened).map
      fun members ↦ { a with members }
  | .table keys => (Node.define keys a.members).map fun members ↦ ⟨keys, members⟩
  | .element keys => (Node.extend keys a.members).map fun members ↦ ⟨keys, members⟩

end Assembly

/-- The table that expressions describe. -/
def assemble (expressions : List Expression) : Option Members :=
  (expressions.foldlM Assembly.add ⟨[], []⟩).map fun a ↦ Node.finishMembers a.members

/-- What follows a byte order mark, if there is one. -/
def skipMark : List Char → List Char
  | c :: rest => if c = '\ufeff' then rest else c :: rest
  | [] => []

/-- The table of a document. -/
def parse? (text : String) : Option Members :=
  (expressions? (skipMark text.toList)).bind assemble

end AgentConsole.Toml
