import AgentConsole.Json.Printer
import AgentConsole.Knowledge.Store

/-!
# Archives

An archive is a directory with a file for each knowledge base and a line for each document in it.
Slashes of either kind in the name of a knowledge base become underscores, so that its file lies in
the directory itself.
-/

namespace AgentConsole.Archive

/-- A character of a file name. -/
def nameChar (c : Char) : Char :=
  if c = '/' ∨ c = '\\' then '_' else c

/-- The name of the file of a knowledge base. -/
def fileName (id : KnowledgeBaseId) : String :=
  String.ofList (id.name.toList.map nameChar) ++ ".jsonl"

/-- The path of the file of a knowledge base. -/
def pathFor (directory : String) (id : KnowledgeBaseId) : String :=
  Path.join directory (fileName id)

/-- A document as it is kept, with the time at which it was stored. -/
def lineJson (d : Document) (timestamp : String) : Json :=
  .object [("id", .string d.id), ("title", .string d.title), ("action", .string "store"),
    ("content", .string d.content), ("timestamp", .string timestamp)]

/-- The line of a document, with its ending. -/
def line (d : Document) (timestamp : String) : String :=
  (lineJson d timestamp).text ++ "\n"

/-- Adds a document to its file. -/
def ingest (directory timestamp : String) (d : Document) (disk : Disk) :
    Except IngestError (List LogEntry) × Disk :=
  match disk.makeDirectory directory with
  | (.error e, made) => (.error (.io e), made)
  | (.ok (), made) =>
    let path := pathFor directory d.knowledgeBase
    match made.append path (Text.encode (line d timestamp)) with
    | .error e => (.error (.io e), made)
    | .ok disk =>
      let message := "Appended document " ++ d.id ++ " to " ++ path
      (.ok [{ severity := .debug, message }], disk)

/-- An archive as a library, at a given time. -/
def library (directory timestamp : String) : Library Disk :=
  ⟨ingest directory timestamp⟩

end AgentConsole.Archive
