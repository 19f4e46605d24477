import AgentConsole.Toml.Scalar
import AgentConsole.Toml.Tree

/-!
# Values in TOML

Scalars, arrays and inline tables.  An array may run over lines with comments and may end in a
comma; an inline table stays on its line and may not.
-/

namespace AgentConsole.Toml

/-- The elements of an array, behind its bracket, as far as they go. -/
def elements? (read : Reader Toml) (cs : List Char) : Option (List Toml × List Char) :=
  match (skipLines? false cs).bind read with
  | none => some ([], cs)
  | some (v, rest) =>
    match skipLines? false rest with
    | some (',' :: rest) =>
      if rest.length < cs.length then (elements? read rest).map fun r ↦ (v :: r.1, r.2) else none
    | some rest => some ([v], rest)
    | none => none
termination_by cs.length

/-- An array, behind its bracket. -/
def array? (read : Reader Toml) : Reader Toml := fun cs ↦ do
  let (items, rest) ← elements? read cs
  let rest ← skipLines? false rest
  return (.array items, ← mark? ']' rest)

/-- A key, or keys joined by dots, and their value. -/
def pair? (read : Reader Toml) : Reader (List String × Toml) := fun cs ↦ do
  let (keys, rest) ← keys? cs
  let rest ← mark? '=' rest
  let (v, rest) ← read (skipBlanks rest)
  return ((keys, v), rest)

/-- The pairs of an inline table, of which there is at least one. -/
def pairs? (read : Reader Toml) (cs : List Char) :
    Option (List (List String × Toml) × List Char) :=
  match pair? read cs with
  | none => none
  | some (p, rest) =>
    match skipBlanks rest with
    | ',' :: rest =>
      if rest.length < cs.length then (pairs? read rest).map fun r ↦ (p :: r.1, r.2) else none
    | rest => some ([p], rest)
termination_by cs.length

/-- The table that pairs define one after the other. -/
def ofPairs (pairs : List (List String × Toml)) : Option Toml :=
  (pairs.foldlM (fun members p ↦ Node.insert p.1 p.2 members) []).map fun members ↦
    .table (Node.finishMembers members)

/-- An inline table, behind its brace. -/
def inlineTable? (read : Reader Toml) : Reader Toml := fun cs ↦
  match skipBlanks cs with
  | '}' :: rest => some (.table [], rest)
  | cs => do
    let (pairs, rest) ← pairs? read cs
    return (← ofPairs pairs, ← mark? '}' rest)

/-- How deep arrays and inline tables may be nested. -/
def depthLimit : Nat := 79

/-- A value in which arrays and inline tables are nested at most so deep. -/
def valueWithin : Nat → Reader Toml
  | 0, cs => if cs.head? = some '[' || cs.head? = some '{' then none else scalar? cs
  | room + 1, cs =>
    match cs with
    | '[' :: rest => array? (valueWithin room) rest
    | '{' :: rest => inlineTable? (valueWithin room) rest
    | cs => scalar? cs

/-- A value. -/
def value? : Reader Toml :=
  valueWithin depthLimit

end AgentConsole.Toml
