import AgentConsole.Disk.Basic
import AgentConsole.Settings.Basic
import AgentConsole.Settings.Wrapped
import AgentConsole.Toml.Document

/-!
# Settings files

Settings come in layers: the defaults, over them the file of the user, over it the file of the
project, over that the file that is asked for by name.  The first two files may be missing; the last
may not.  The file of a project is also looked for in the directories above the working directory.

* `SettingsFiles.discover` : the files that count on a disk;
* `Settings.load` : the settings in them.
-/

namespace AgentConsole

/-- The paths of settings files, from the lowest layer to the highest. -/
structure SettingsFiles where
  user : Option String
  project : Option String
  explicit : Option String

namespace SettingsFiles

/-! ## Where the files are -/

/-- The names of project files; of several the first counts. -/
def projectNames : List String := ["strands.toml", ".strands.toml"]

/-- The file of the project in the working directory. -/
def findProject (d : Disk) : Option String :=
  projectNames.find? d.contains

/-- The directory for settings of all kinds: the one that the user has chosen, if its path starts at
the root, or else the usual one at home. -/
def settingsDirectory (chosen home : Option String) : Option String :=
  match chosen.filter Path.isAbsolute with
  | some directory => some directory
  | none => (home.filter (· ≠ "")).map (Path.join · ".config")

/-- The file of the user. -/
def userFile (chosen home : Option String) : Option String :=
  (settingsDirectory chosen home).map fun directory ↦
    Path.join (Path.join directory "strands") "config.toml"

/-- The files that count on a disk. -/
def discover (d : Disk) (chosen home explicit : Option String) : SettingsFiles :=
  { user := userFile chosen home, project := findProject d, explicit }

/-! ## What is said about them -/

/-- A file and whether it is there. -/
def describe (mark name path : String) : String :=
  "  [" ++ mark ++ "] " ++ name ++ ": " ++ path ++ "\n"

/-- The files as the user sees them, the highest layer first. -/
def report (d : Disk) (f : SettingsFiles) : String :=
  let explicit := match f.explicit with
    | some path => describe (if d.contains path then "FOUND" else "MISSING") "Explicit" path
    | none => ""
  let project := match f.project with
    | some path => describe "FOUND" "Project" path
    | none => describe "     " "Project" "./strands.toml or ./.strands.toml"
  let user := match f.user with
    | some path => describe (if d.contains path then "FOUND" else "     ") "Global" (" " ++ path)
    | none => ""
  "Configuration sources (in priority order):\n" ++ explicit ++ project ++ user ++
    describe "     " "Default" "built-in defaults"

end SettingsFiles

namespace Settings

/-! ## Reading the files -/

/-- The table in a file. -/
def readFile (d : Disk) (path : String) : Except SettingsError Toml.Members :=
  match d.readText path with
  | .error _ => .error (.unreadable path)
  | .ok text =>
    match (Toml.parse? text).bind unwrapMembers? with
    | some members => .ok members
    | none => .error (.illFormed path)

/-- The directories from a location up to the root. -/
def upward (l : Location) : List Location :=
  ((List.range (l.length + 1)).map l.take).reverse

/-- The table in a file that may be missing.  A path that does not start at the root is tried in the
working directory and in those above it. -/
def readLayer (d : Disk) (path : String) : Except SettingsError Toml.Members :=
  if d.contains path then
    let places := if Path.isAbsolute path then [d.workingDirectory] else upward d.workingDirectory
    match (places.map fun l ↦ { d with workingDirectory := l }).find? (·.isFile path) with
    | some d => readFile d path
    | none => .ok []
  else .ok []

/-- The layers of some files, from the lowest to the highest.  They come over the defaults. -/
def layers (d : Disk) (f : SettingsFiles) : Except SettingsError (List Toml.Members) := do
  let lower ← (f.user.toList ++ f.project.toList).mapM (readLayer d)
  let upper ← f.explicit.toList.mapM (readFile d)
  return lower ++ upper

/-- The settings in some files. -/
def load (d : Disk) (f : SettingsFiles) : Except SettingsError Settings := do
  ofTable ((← layers d f).foldl Toml.mergeMembers (toTable {}))

end Settings

end AgentConsole
