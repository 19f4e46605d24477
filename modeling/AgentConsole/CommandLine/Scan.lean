import AgentConsole.CommandLine.Basic
import AgentConsole.Text.Blank

/-!
# Scanning arguments

The arguments of a command, like those before it, are options and operands.  An option is written in
full behind two dashes, or some of them with a single letter, where letters may share a dash; a
value follows behind an equals sign or as the next argument.  After a lone `--` everything is an
operand.

A value that is an argument of its own is only looked at when the next option or operand is taken
up, so that an argument which nothing is known of is reported before it.

* `Level.scan` : takes up arguments one after the other;
* `Scan.close` : what has been given.
-/

namespace AgentConsole

/-- What has been given so far. -/
structure Given where
  verbosity : Option Nat := none
  config : Option String := none
  noConfig : Bool := false
  showConfig : Bool := false
  knowledgeBase : Option String := none
  systemPrompt : Option String := none
  noColor : Bool := false
  operand : Option String := none
  pace : Option Nat := none
  content : Option String := none
  title : Option String := none
  user : Option String := none
  response : Option String := none

/-- Takes up a value. -/
abbrev Setter := String → Given → Except UsageError Given

/-- An option. -/
inductive Switch where
  /-- One that takes no value. -/
  | flag (long : String) (short : Option Char) (set : Given → Except UsageError Given)
  | valued (long : String) (set : Setter)

namespace Switch

/-- The name of an option. -/
def long : Switch → String
  | .flag long _ _ => long
  | .valued long _ => long

/-- The letter of an option. -/
def short? : Switch → Option Char
  | .flag _ short _ => short
  | .valued _ _ => none

end Switch

/-- The options and operands that may be given at one place of the command line. -/
structure Level where
  switches : List Switch
  operands : List Setter
  /-- What is wrong with an operand too many; whether it follows a lone `--` may matter. -/
  surplus : Bool → String → UsageError

/-- What the arguments before have left to do. -/
inductive Pending where
  | nothing
  /-- An option whose value has yet to come. -/
  | awaiting (option : String) (set : Setter)
  /-- A value that has yet to be looked at. -/
  | filled (set : Setter) (value : String)

/-- The state of a scan. -/
structure Scan where
  given : Given := {}
  pending : Pending := .nothing
  /-- Whether a lone `--` has been met. -/
  trailing : Bool := false
  /-- How many operands there have been. -/
  operands : Nat := 0

namespace Pending

/-- Whether a value has yet to come. -/
def isAwaiting : Pending → Bool
  | .awaiting _ _ => true
  | _ => false

/-- Does what is left to do. -/
def settle (p : Pending) (g : Given) : Except UsageError Given :=
  match p with
  | .nothing => .ok g
  | .awaiting option _ => .error (.missingValue option)
  | .filled set value => set value g

end Pending

namespace Scan

/-- Does what is left to do. -/
def settle (s : Scan) : Except UsageError Scan :=
  (s.pending.settle s.given).map fun given ↦ { s with given, pending := .nothing }

/-- Takes up an option without value. -/
def apply (set : Given → Except UsageError Given) (s : Scan) : Except UsageError Scan := do
  let s ← s.settle
  return { s with given := ← set s.given }

end Scan

/-! ## Spellings -/

/-- What an argument looks like. -/
inductive Spelling where
  /-- A lone `--`. -/
  | separator
  | long (name : String) (value : Option String)
  | short (letters : List Char)
  | plain

/-- A text around its first equals sign. -/
def splitEquals : List Char → List Char × Option (List Char)
  | [] => ([], none)
  | c :: rest =>
    if c = '=' then ([], some rest)
    else
      let (name, value) := splitEquals rest
      (c :: name, value)

/-- What an argument looks like.  A lone dash is nothing special. -/
def Spelling.of (arg : String) : Spelling :=
  match arg.toList with
  | ['-', '-'] => .separator
  | '-' :: '-' :: rest =>
    let (name, value) := splitEquals rest
    .long (String.ofList name) (value.map String.ofList)
  | ['-'] => .plain
  | '-' :: letters => .short letters
  | _ => .plain

namespace Level

variable (l : Level)

/-! ## Arguments -/

/-- Takes up an option in full. -/
def takeLong (name : String) (value : Option String) (s : Scan) : Except UsageError Scan :=
  match l.switches.find? (·.long = name), value with
  | none, _ => .error (.unknownArgument ("--" ++ name))
  | some (.flag _ _ set), none => s.apply set
  | some (.flag _ _ _), some value => .error (.unwantedValue ("--" ++ name) value)
  | some (.valued _ set), some value => s.apply (set value)
  | some (.valued _ set), none => do
    let s ← s.settle
    return { s with pending := .awaiting ("--" ++ name) set }

/-- Takes up the letters of options. -/
def takeShort (s : Scan) : List Char → Except UsageError Scan
  | [] => .ok s
  | c :: rest =>
    match l.switches.find? (·.short? = some c) with
    | some (.flag _ _ set) => (s.apply set).bind fun s ↦ takeShort s rest
    | _ => .error (.unknownArgument ("-" ++ String.ofList [c]))

/-- Takes up an operand. -/
def takeOperand (arg : String) (s : Scan) : Except UsageError Scan :=
  match l.operands[s.operands]? with
  | none => .error (l.surplus s.trailing arg)
  | some set => do
    let s ← s.settle
    return { s with pending := .filled set arg, operands := s.operands + 1 }

/-- Takes up an argument that looks like no option. -/
def takePlain (arg : String) (s : Scan) : Except UsageError Scan :=
  match s.pending with
  | .awaiting _ set => .ok { s with pending := .filled set arg }
  | _ => l.takeOperand arg s

/-- Takes up an argument. -/
def step (s : Scan) (arg : String) : Except UsageError Scan :=
  if s.trailing then l.takeOperand arg s
  else
    match Spelling.of arg with
    | .separator => .ok { s with trailing := true }
    | .long name value => l.takeLong name value s
    | .short letters => l.takeShort s letters
    | .plain => l.takePlain arg s

/-- Takes up arguments one after the other. -/
def scan (s : Scan) (args : List String) : Except UsageError Scan :=
  args.foldlM l.step s

end Level

/-- What has been given when there are no more arguments. -/
def Scan.close (s : Scan) : Except UsageError Given :=
  s.pending.settle s.given

end AgentConsole
