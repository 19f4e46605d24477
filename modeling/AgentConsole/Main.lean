import AgentConsole.Program.Reach
import Std.Time.Format

/-!
# The command line

Finds out what a run may look at, carries the run out, and passes on what comes of it: its output at
its pace, and the files that it has changed.
-/

namespace AgentConsole.Main

/-- The variables of the environment that mean something to the program. -/
def variableNames : List String :=
  ["HOME", "XDG_CONFIG_HOME", "CLICOLOR_FORCE", CommandLine.knowledgeBaseVariable,
    CommandLine.systemPromptVariable]

/-- Looks variables up in the environment. -/
def getEnvironment : IO (String → Option String) := do
  let found ← variableNames.filterMapM fun name ↦ do
    return (← IO.getEnv name).map (name, ·)
  return (List.lookup · found)

/-- What is at a path, if anything is. -/
def getEntry (path : String) : IO (Option Entry) := do
  let place := (← IO.currentDir) / path
  if ← place.isDir then return some .directory
  else if ← place.pathExists then return some (.file (← IO.FS.readBinFile place).data.toList)
  else return none

/-- Adds what lies along some components to a disk. -/
def survey (d : Disk) (l : Location) : List String → IO Disk
  | [] => return d
  | c :: rest =>
    if Path.stays c then survey d l rest
    else if c = ".." then survey d l.dropLast rest
    else do
      let l := l ++ [c]
      match ← getEntry (Path.ofNames l) with
      | some e => survey (d.put l e) l rest
      | none => return d

/-- Adds what paths lead to to a disk. -/
def surveyAll (d : Disk) (paths : List String) : IO Disk :=
  (paths.filter fun path ↦ (Disk.pathFault? path).isNone).foldlM
    (fun d path ↦ survey d (d.origin path) (Path.components path)) d

/-- The disk with the working directory and no files. -/
def getDisk : IO Disk := do
  let directory := (← IO.currentDir).toString
  surveyAll ⟨[], (Path.components directory).filter (· ≠ "")⟩ [directory]

/-- The standard input. -/
def getInput : IO (Except IoError Bytes) := do
  return .ok (← (← IO.getStdin).readBinToEnd).data.toList

/-- A number of so many hexadecimal digits, drawn at random. -/
def drawSerial (digits : Nat) : IO String := do
  let drawn ← (List.range digits).mapM fun _ ↦ IO.rand 0 15
  return String.ofList (drawn.map Nat.digitChar)

/-- What a run finds, with a disk that holds no more than the run can look at. -/
def getSurroundings (environment : String → Option String) (a : Arguments) : IO Surroundings := do
  let now ← Std.Time.DateTime.now
  let stamp := { time := now.format "uuuuMMdd_HHmmss", serial := ← drawSerial 8 }
  let timestamp := (Std.Time.DateTime.ofTimestamp now.toTimestamp .UTC).format
    "uuuu-MM-dd'T'HH:mm:ss.SSS'Z'"
  let input ← if Program.readsInput a then getInput else pure (.ok [])
  let s := { disk := ← getDisk, environment, input, stamp, timestamp }
  let s := { s with disk := ← surveyAll s.disk (Program.settingsPaths s a) }
  match Program.settings s a with
  | .error _ => return s
  | .ok x => return { s with disk := ← surveyAll s.disk (Program.commandPaths x a) }

/-- Passes on a piece of output and waits. -/
def putPiece (p : Piece) : IO Unit := do
  (← IO.getStdout).putStr p.stdout
  (← IO.getStdout).flush
  IO.eprint p.stderr
  IO.sleep p.pause.toUInt32

/-- Makes a change on the disk. -/
def putEntry (l : Location) : Entry → IO Unit
  | .directory => IO.FS.createDirAll (Path.ofNames l)
  | .file contents => IO.FS.writeBinFile (Path.ofNames l) ⟨contents.toArray⟩

/-- Carries a run out. -/
def perform (environment : String → Option String) (a : Arguments) : IO UInt32 := do
  let s ← getSurroundings environment a
  let r := Program.run s a
  r.pieces.forM putPiece
  (r.disk.changesSince s.disk).forM fun e ↦ putEntry e.1 e.2
  if let some e := r.error then IO.eprintln ("Error: " ++ e.text)
  return r.exitCode.toUInt32

end AgentConsole.Main

/-- Does what the command line asks for. -/
def main (args : List String) : IO UInt32 := do
  let environment ← AgentConsole.Main.getEnvironment
  match AgentConsole.Arguments.parse environment args with
  | .ok a => AgentConsole.Main.perform environment a
  | .error e =>
    if e.isAnswer then IO.println e.message else IO.eprintln ("error: " ++ e.message)
    return e.exitCode.toUInt32
