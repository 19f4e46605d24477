import AgentConsole.Program.Perform

/-!
# What a run looks at

A run looks at a few paths only, so a disk on which no more than these are known is as good as the
whole one.  Which they are shows in two steps: the settings files are known from the command line,
and the files of a command once the settings have been read.
-/

namespace AgentConsole.Program

/-- The places where a settings file may be found. -/
def settingsPlaces (l : Location) (path : String) : List String :=
  if Path.isAbsolute path then [path]
  else (Settings.upward l).map fun directory ↦ Path.join (Path.ofNames directory) path

/-- The paths of settings files that a run looks at. -/
def settingsPaths (s : Surroundings) (a : Arguments) : List String :=
  let f := files s a
  f.explicit.toList ++
    (f.user.toList ++ SettingsFiles.projectNames).flatMap (settingsPlaces s.disk.workingDirectory)

/-- The paths that a document in a knowledge base leads to. -/
def archivePaths (x : Settings) (knowledgeBase : Option String) : List String :=
  match KnowledgeBaseId.resolve [knowledgeBase] with
  | .ok id => [x.knowledge.directory, Archive.pathFor x.knowledge.directory id]
  | .error _ => []

/-- The paths that a command looks at. -/
def commandPaths (x : Settings) (a : Arguments) : List String :=
  match a.command with
  | none => [Welcome.Store.fileName]
  | some (.replay file _) => if Replay.isInput file then [] else [file]
  | some (.welcome _ _) => [Welcome.Store.fileName]
  | some (.store _ _) => archivePaths x (defaultKnowledgeBase x a)
  | some (.storeConversation _ response) =>
    response.toList ++ archivePaths x (defaultKnowledgeBase x a)
  | some .prompt => [Prompt.fileName]

/-- Whether a run reads the standard input. -/
def readsInput (a : Arguments) : Bool :=
  match a.command with
  | some (.replay file _) => Replay.isInput file
  | some (.store content _) => content = "-"
  | _ => false

end AgentConsole.Program
