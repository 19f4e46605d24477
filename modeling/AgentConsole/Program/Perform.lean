import AgentConsole.CommandLine.Parse
import AgentConsole.Knowledge.Archive
import AgentConsole.Program.Replay
import AgentConsole.Prompt
import AgentConsole.Settings.Files
import AgentConsole.Welcome.Store

/-!
# The program

Settings are read before a command is carried out, and what is said on the command line goes over
what they say.  A name for the knowledge base that is given but blank does not give way to the one
in the settings.

* `Program.run` : a run with given arguments.
-/

namespace AgentConsole.Program

/-! ## Settings -/

/-- The settings files that count. -/
def files (s : Surroundings) (a : Arguments) : SettingsFiles :=
  SettingsFiles.discover s.disk (s.environment "XDG_CONFIG_HOME") (s.environment "HOME") a.config

/-- The settings of a run. -/
def settings (s : Surroundings) (a : Arguments) : Except SettingsError Settings :=
  if a.noConfig then .ok {} else Settings.load s.disk (files s a)

/-- The options of the display. -/
def options (x : Settings) (a : Arguments) : DisplayOptions :=
  { x.display.options with color := x.display.color && !a.noColor }

/-- Whether the environment asks for escape sequences where there is no terminal. -/
def forcesAnsi (s : Surroundings) : Bool :=
  match s.environment "CLICOLOR_FORCE" with
  | some value => value ≠ "0"
  | none => false

/-- How anything is shown. -/
def manner (s : Surroundings) (x : Settings) (a : Arguments) (pace : Nat) : Replay.Manner :=
  let options := options x a
  { options, ansi := options.color && forcesAnsi s, pace }

/-- The knowledge base for what names none itself. -/
def defaultKnowledgeBase (x : Settings) (a : Arguments) : Option String :=
  a.knowledgeBase.orElse fun _ ↦ x.knowledge.id

/-! ## Commands -/

/-- Lines of output. -/
def unlines (lines : List String) : String :=
  "".intercalate (lines.map (· ++ "\n"))

/-- The welcome text, or why there is none. -/
def welcomeText (s : Surroundings) (action : Welcome.Action) :
    Except ProgramError (Welcome.Reply × Disk) :=
  ((Welcome.Store.file Welcome.Store.fileName).perform action s.disk).mapError .welcome

/-- Shows the welcome text in a panel. -/
def greet (s : Surroundings) (m : Replay.Manner) : Run :=
  match welcomeText s .view with
  | .error e => .fail e s.disk
  | .ok (reply, d) =>
    .say ((Panel.welcome reply.message).render (m.options.color && m.ansi) ++ "\n") d

/-- Shows or replaces the welcome text. -/
def welcome (s : Surroundings) (action : String) (content : Option String) : Run :=
  match (Welcome.Action.parse action content).mapError .request with
  | .error e => .fail e s.disk
  | .ok action =>
    match welcomeText s action with
    | .error e => .fail e s.disk
    | .ok (reply, d) => .say (reply.message ++ "\n") d

/-- The text of the standard input. -/
def inputText (s : Surroundings) : Except IoError String := do
  match Text.decode? (← s.input) with
  | some text => return text
  | none => throw .invalidData

/-- What is to be stored: a lone dash stands for the standard input. -/
def contentOf (s : Surroundings) (content : String) : Except IoError String :=
  if content = "-" then inputText s else .ok content

/-- The library that documents go to. -/
def library (s : Surroundings) (x : Settings) : Library Disk :=
  Archive.library x.knowledge.directory s.timestamp

/-- Stores content. -/
def store (s : Surroundings) (x : Settings) (default : Option String) (content : String)
    (title : Option String) : Run :=
  match contentOf s content with
  | .error e => .fail (.io e) s.disk
  | .ok content =>
    let stored := (library s x).store default true s.stamp
      { content, title, knowledgeBase := none } s.disk
    match stored.result with
    | .error e => .fail (.storing e) stored.world
    | .ok receipt => .say (unlines receipt.summary) stored.world

/-- The chat message in a file. -/
def readMessage (d : Disk) (path : String) : Except ProgramError Message :=
  match d.readText path with
  | .error e => .error (.io e)
  | .ok text =>
    match Message.read? text with
    | some m => .ok m
    | none => .error (.message path)

/-- Stores a conversation; without a knowledge base nothing is done. -/
def storeConversation (s : Surroundings) (x : Settings) (default : Option String) (user : String)
    (response : Option String) : Run :=
  match response.mapM (readMessage s.disk) with
  | .error e => .fail e s.disk
  | .ok answer =>
    let stored := (library s x).storeConversation default true s.stamp user answer none s.disk
    match stored.result with
    | .error e => .fail (.storing e) stored.world
    | .ok (some receipt) => .say (unlines receipt.summary) stored.world
    | .ok none => .silent stored.world

/-- Shows the system prompt. -/
def prompt (s : Surroundings) (x : Settings) (a : Arguments) : Run :=
  let explicit := a.systemPrompt.orElse fun _ ↦ x.prompt
  .say (Prompt.resolve s.disk Prompt.fileName explicit ++ "\n") s.disk

/-- Carries out a command. -/
def perform (s : Surroundings) (x : Settings) (a : Arguments) : Run :=
  let default := defaultKnowledgeBase x a
  match a.command with
  | none => greet s (manner s x a 0)
  | some (.replay file pace) => Replay.runFile (manner s x a pace) s file
  | some (.welcome action content) => welcome s action content
  | some (.store content title) => store s x default content title
  | some (.storeConversation user response) => storeConversation s x default user response
  | some .prompt => prompt s x a

/-- A run with given arguments. -/
def run (s : Surroundings) (a : Arguments) : Run :=
  if a.showConfig then .say ((files s a).report s.disk) s.disk
  else
    match settings s a with
    | .error e => .fail (.settings e) s.disk
    | .ok x => perform s x a

end AgentConsole.Program
