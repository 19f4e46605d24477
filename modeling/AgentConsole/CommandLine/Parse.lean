import AgentConsole.CommandLine.Scan

/-!
# Reading command lines

Options that hold for the whole program may stand before the command or behind it, where the latter
counts; where neither is there a variable of the environment may stand in.  Each place takes an
option only once.  What is wrong with the arguments of a command is reported before what is wrong
with the last value in front of it.

* `Arguments.parse` : the meaning of a command line.
-/

namespace AgentConsole

namespace CommandLine

/-! ## Options -/

/-- An option that takes a text. -/
def textOption (long : String) (get : Given → Option String) (put : String → Given → Given) :
    Switch :=
  .valued long fun value g ↦
    if (get g).isSome then .error (.repeated long) else .ok (put value g)

/-- An option that takes the path of a file. -/
def pathOption (long : String) (get : Given → Option String) (put : String → Given → Given) :
    Switch :=
  .valued long fun value g ↦
    if (get g).isSome then .error (.repeated long)
    else if value = "" then .error (.missingValue long)
    else .ok (put value g)

/-- An option that is given or not. -/
def flagOption (long : String) (get : Given → Bool) (put : Given → Given) : Switch :=
  .flag long none fun g ↦ if get g then .error (.repeated long) else .ok (put g)

/-- A number below `bound` in decimal, which may have a plus sign. -/
def number? (bound : Nat) (text : String) : Option Nat :=
  let digits := match text.toList with
    | '+' :: rest => rest
    | cs => cs
  if digits.isEmpty || digits.any (!Char.isDigit ·) then none
  else
    let n := digits.foldl (fun n c ↦ 10 * n + (c.toNat - '0'.toNat)) 0
    if n < bound then some n else none

/-- The greatest verbosity that is told apart from others. -/
def verbosityLimit : Nat := 255

/-- The option that asks for help. -/
def helpOption : Switch := .flag "help" (some 'h') fun _ ↦ .error .help

/-- The options that hold for the whole program. -/
def globalOptions : List Switch :=
  [.flag "verbose" (some 'v') fun g ↦
      .ok { g with verbosity := some (min (g.verbosity.getD 0 + 1) verbosityLimit) },
    pathOption "config" (·.config) fun v g ↦ { g with config := some v },
    flagOption "no-config" (·.noConfig) fun g ↦ { g with noConfig := true },
    textOption "kb" (·.knowledgeBase) fun v g ↦ { g with knowledgeBase := some v },
    textOption "system-prompt" (·.systemPrompt) fun v g ↦ { g with systemPrompt := some v },
    flagOption "no-color" (·.noColor) fun g ↦ { g with noColor := true },
    helpOption]

/-- The number of milliseconds after each callback; it is counted in 64 bits. -/
def paceOption : Switch :=
  .valued "pace-ms" fun value g ↦
    if g.pace.isSome then .error (.repeated "pace-ms")
    else
      match number? (Nat.pow 2 64) value with
      | some n => .ok { g with pace := some n }
      | none => .error (.wrongValue "pace-ms" value)

def contentOption : Switch :=
  textOption "content" (·.content) fun v g ↦ { g with content := some v }

def titleOption : Switch :=
  textOption "title" (·.title) fun v g ↦ { g with title := some v }

def userOption : Switch :=
  textOption "user" (·.user) fun v g ↦ { g with user := some v }

def responseOption : Switch :=
  pathOption "response" (·.response) fun v g ↦ { g with response := some v }

/-- An operand that is a text. -/
def textOperand : Setter := fun value g ↦ .ok { g with operand := some value }

/-- An operand that is the path of a file. -/
def pathOperand : Setter := fun value g ↦
  if value = "" then .error (.missingValue "FILE") else textOperand value g

/-! ## Commands -/

/-- A command: what may be given to it and what that comes to. -/
structure CommandForm where
  name : String
  options : List Switch
  operands : List Setter
  finish : Given → Except UsageError Command

/-- Something that has to be given. -/
def demand (name : String) : Option String → Except UsageError String
  | some value => .ok value
  | none => .error (.missingArgument name)

/-- All commands. -/
def forms : List CommandForm :=
  [{ name := "replay"
     options := [paceOption]
     operands := [pathOperand]
     finish := fun g ↦ (demand "FILE" g.operand).map (.replay · (g.pace.getD 0)) },
   { name := "welcome"
     options := [contentOption]
     operands := [textOperand]
     finish := fun g ↦ .ok (.welcome (g.operand.getD "view") g.content) },
   { name := "store"
     options := [titleOption]
     operands := [textOperand]
     finish := fun g ↦ (demand "CONTENT" g.operand).map (.store · g.title) },
   { name := "store-conversation"
     options := [userOption, responseOption]
     operands := []
     finish := fun g ↦ (demand "user" g.user).map (.storeConversation · g.response) },
   { name := "prompt"
     options := []
     operands := []
     finish := fun _ ↦ .ok .prompt }]

/-- The command with a name. -/
def form? (name : String) : Option CommandForm :=
  forms.find? (·.name = name)

/-- The name under which help is a command. -/
def helpName : String := "help"

/-- Whether a word is the name of a command. -/
def isCommand (word : String) : Bool :=
  word = helpName || (form? word).isSome

/-- What may be given to a command. -/
def CommandForm.level (f : CommandForm) : Level :=
  { switches := globalOptions ++ f.options
    operands := f.operands
    surplus := fun _ arg ↦ .unknownArgument arg }

/-- Reads what follows the name of a command. -/
def CommandForm.read (f : CommandForm) (args : List String) :
    Except UsageError (Given × Command) := do
  let s ← f.level.scan {} args
  let g ← s.close
  return (g, ← f.finish g)

/-- Reads what follows the command `help`: at most one name of a command. -/
def readHelp : List String → UsageError
  | [] => .help
  | [name] => if isCommand name then .help else .unknownCommand name
  | name :: other :: _ =>
    if isCommand name then .unknownCommand other else .unknownCommand name

/-! ## Whole command lines -/

/-- What may be given in front of a command.  An operand there can only be meant as a command,
unless it is the name of one behind a lone `--`. -/
def topLevel : Level :=
  { switches := globalOptions ++
      [flagOption "show-config" (·.showConfig) fun g ↦ { g with showConfig := true },
        .flag "version" (some 'V') fun _ ↦ .error .version]
    operands := []
    surplus := fun trailing arg ↦
      if trailing && isCommand arg then .unknownArgument arg else .unknownCommand arg }

/-- Reads a command line: what is given in front of the command, and the command with what is given
behind it. -/
def read (s : Scan) : List String → Except UsageError (Given × Option (Given × Command))
  | [] => s.close.map fun g ↦ (g, none)
  | arg :: rest =>
    if s.trailing || s.pending.isAwaiting then (topLevel.step s arg).bind fun s ↦ read s rest
    else if arg = helpName then .error (readHelp rest)
    else
      match form? arg with
      | some f => do
        let inner ← f.read rest
        let outer ← s.close
        return (outer, some inner)
      | none => (topLevel.step s arg).bind fun s ↦ read s rest

/-! ## The environment -/

/-- The variable that stands in for the name of the knowledge base. -/
def knowledgeBaseVariable : String := "STRANDS_KNOWLEDGE_BASE_ID"

/-- The variable that stands in for the system prompt. -/
def systemPromptVariable : String := "STRANDS_SYSTEM_PROMPT"

/-- What is given in front of a command and behind it, taken together. -/
def combine (environment : String → Option String) (outer inner : Given)
    (command : Option Command) :
    Arguments :=
  { verbosity := (inner.verbosity.orElse fun _ ↦ outer.verbosity).getD 0
    config := inner.config.orElse fun _ ↦ outer.config
    noConfig := inner.noConfig || outer.noConfig
    showConfig := outer.showConfig
    knowledgeBase := inner.knowledgeBase.orElse fun _ ↦
      outer.knowledgeBase.orElse fun _ ↦ environment knowledgeBaseVariable
    systemPrompt := inner.systemPrompt.orElse fun _ ↦
      outer.systemPrompt.orElse fun _ ↦ environment systemPromptVariable
    noColor := inner.noColor || outer.noColor
    command }

end CommandLine

/-- The meaning of a command line, with the variables of the environment. -/
def Arguments.parse (environment : String → Option String) (args : List String) :
    Except UsageError Arguments := do
  match ← CommandLine.read {} args with
  | (outer, none) => return CommandLine.combine environment outer {} none
  | (outer, some (inner, command)) =>
    return CommandLine.combine environment outer inner (some command)

end AgentConsole
