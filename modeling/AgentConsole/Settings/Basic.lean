import AgentConsole.Settings.Options
import AgentConsole.Toml.Basic

/-!
# Settings

The settings of a user, as they stand in tables of a settings file.  What the user does not set has
a default, and what no setting is named for is passed over.  A section may also be written as an
array of its settings in their fixed order.

* `Settings.ofTable` : the settings in a table; of several faults the first counts, by the keys in
  alphabetical order;
* `Settings.toTable` : a table with given settings.
-/

namespace AgentConsole

/-- The section for the display. -/
structure DisplaySettings where
  /-- The time between two frames, in milliseconds; none at all stands for the default. -/
  tick : Nat := DisplayOptions.defaultTick
  notifies : Bool := false
  color : Bool := true
  deriving DecidableEq, Repr

/-- Where the archive is unless the user says so. -/
def KnowledgeSettings.defaultDirectory : String := ".strands/knowledge_base"

/-- The section for the knowledge base. -/
structure KnowledgeSettings where
  /-- The knowledge base that documents go to unless the user names one. -/
  id : Option String := none
  /-- The directory of the archive. -/
  directory : String := KnowledgeSettings.defaultDirectory
  deriving DecidableEq, Repr

/-- Everything that can be set. -/
structure Settings where
  display : DisplaySettings := {}
  knowledge : KnowledgeSettings := {}
  /-- The system prompt. -/
  prompt : Option String := none
  deriving DecidableEq, Repr

/-- Why there are no settings.  The faults of values come with the keys that lead to them. -/
inductive SettingsError where
  | unreadable (path : String)
  | illFormed (path : String)
  | wrongType (keys : List String)
  /-- A value of the right type that is out of range. -/
  | wrongValue (keys : List String)
  deriving DecidableEq, Repr

/-- The wording of an error. -/
def SettingsError.message : SettingsError → String
  | .unreadable path => "cannot read " ++ path
  | .illFormed path => path ++ " is no TOML document"
  | .wrongType keys => "wrong type of value for " ++ ".".intercalate keys
  | .wrongValue keys => "value out of range for " ++ ".".intercalate keys

/-- The options of the display. -/
def DisplaySettings.options (s : DisplaySettings) : DisplayOptions :=
  { tick := .ofMillis (if s.tick = 0 then DisplayOptions.defaultTick else s.tick)
    notifies := s.notifies
    color := s.color }

namespace Settings

/-- A reader of values, which are reached by some keys. -/
abbrev Reader (α : Type) := List String → Toml → Except SettingsError α

/-! ## Values -/

/-- A text. -/
def text : Reader String
  | _, .string s => .ok s
  | keys, _ => .error (.wrongType keys)

/-- A truth value. -/
def truth : Reader Bool
  | _, .bool b => .ok b
  | keys, _ => .error (.wrongType keys)

/-- A natural number. -/
def natural : Reader Nat
  | keys, .integer n => if 0 ≤ n then .ok n.toNat else .error (.wrongValue keys)
  | keys, _ => .error (.wrongType keys)

/-- A text that need not be there. -/
def someText : Reader (Option String) := fun keys v ↦ (text keys v).map some

/-! ## Sections -/

/-- The values of a section: by key, or by place if it is written as an array. -/
inductive Section where
  | named (members : Toml.Members)
  | listed (items : List Toml)

/-- The section that a value is. -/
def asSection : Reader Section
  | _, .array items => .ok (.listed items)
  | keys, v =>
    match v.members? with
    | some members => .ok (.named members)
    | none => .error (.wrongType keys)

/-- The setting with a key and a place in a section, or else its default. -/
def Section.setting {α : Type} (s : Section) (keys : List String) (key : String) (place : Nat)
    (default : α) (read : Reader α) : Except SettingsError α :=
  match s with
  | .named members =>
    match members.lookup key with
    | some v => read (keys ++ [key]) v
    | none => .ok default
  | .listed items =>
    match items[place]? with
    | some v => read (keys ++ [toString place]) v
    | none => .ok default

end Settings

/-- The section for the display. -/
def DisplaySettings.ofToml : Settings.Reader DisplaySettings := fun keys v ↦ do
  let s ← Settings.asSection keys v
  let tick := s.setting keys "tick_interval_ms" 0 DisplayOptions.defaultTick Settings.natural
  let notifies := s.setting keys "notify_on_completion" 1 false Settings.truth
  let color := s.setting keys "color" 2 true Settings.truth
  match s with
  | .named _ =>
    let color ← color
    let notifies ← notifies
    return { tick := ← tick, notifies, color }
  | .listed _ =>
    let tick ← tick
    let notifies ← notifies
    return { tick, notifies, color := ← color }

/-- The section for the knowledge base. -/
def KnowledgeSettings.ofToml : Settings.Reader KnowledgeSettings := fun keys v ↦ do
  let s ← Settings.asSection keys v
  let id := s.setting keys "id" 0 none Settings.someText
  let directory := s.setting keys "directory" 1 KnowledgeSettings.defaultDirectory Settings.text
  match s with
  | .named _ =>
    let directory ← directory
    return { id := ← id, directory }
  | .listed _ =>
    let id ← id
    return { id, directory := ← directory }

namespace Settings

/-- The section for the system prompt. -/
def promptOf : Reader (Option String) := fun keys v ↦ do
  (← asSection keys v).setting keys "system_prompt" 0 none someText

/-- The settings in a table. -/
def ofTable (members : Toml.Members) : Except SettingsError Settings := do
  let all := Section.named members
  let knowledge ← all.setting [] "knowledge_base" 0 {} KnowledgeSettings.ofToml
  let display ← all.setting [] "presenter" 1 {} DisplaySettings.ofToml
  let prompt ← all.setting [] "prompt" 2 none promptOf
  return { display, knowledge, prompt }

/-- A table with given settings.  A setting without a value has no key. -/
def toTable (x : Settings) : Toml.Members :=
  [("presenter", .table [("tick_interval_ms", .integer x.display.tick),
      ("notify_on_completion", .bool x.display.notifies), ("color", .bool x.display.color)]),
    ("knowledge_base", .table ((x.knowledge.id.map fun id ↦ ("id", .string id)).toList ++
      [("directory", .string x.knowledge.directory)])),
    ("prompt", .table (x.prompt.map fun prompt ↦ ("system_prompt", .string prompt)).toList)]

/-- The settings of a user who sets nothing. -/
theorem ofTable_nil : ofTable [] = .ok {} := rfl

end Settings

end AgentConsole
