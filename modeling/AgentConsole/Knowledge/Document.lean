import AgentConsole.Json.Fields
import AgentConsole.Json.Printer
import AgentConsole.Json.Reader
import AgentConsole.Request
import AgentConsole.Text.Blank

/-!
# Documents of a knowledge base

A document goes to the knowledge base that it names.  A name given by the user is trimmed and must
not be blank, and neither must the content of a document made here; a document that is read from
JSON is taken as it is.

* `KnowledgeBaseId.resolve` : the first usable one of several names;
* `Document.make` : a document with content.
-/

namespace AgentConsole

/-- The name of a knowledge base. -/
structure KnowledgeBaseId where
  name : String
  deriving DecidableEq, Repr

namespace KnowledgeBaseId

/-- The name of a knowledge base as the user gives it. -/
def parse (name : String) : Except RequestError KnowledgeBaseId :=
  let name := Text.trim name
  if name = "" then .error .missingKnowledgeBase else .ok ⟨name⟩

/-- The first of several names, some of which may be missing, that is not blank. -/
def resolve (candidates : List (Option String)) : Except RequestError KnowledgeBaseId :=
  match candidates.findSome? fun c ↦ c.bind fun name ↦ (parse name).toOption with
  | some id => .ok id
  | none => .error .missingKnowledgeBase

end KnowledgeBaseId

/-- A document to be stored. -/
structure Document where
  id : String
  knowledgeBase : KnowledgeBaseId
  title : String
  content : String
  deriving DecidableEq, Repr

namespace Document

/-- A document, unless its content is blank. -/
def make (id : String) (knowledgeBase : KnowledgeBaseId) (title content : String) :
    Except RequestError Document :=
  if Text.isBlank content then .error .emptyContent
  else .ok { id, knowledgeBase, title, content }

/-- The fields of a document. -/
def fields : List (List String) := [["id"], ["knowledge_base_id"], ["title"], ["content"]]

def ofJson? (j : Json) : Option Document := do
  match ← j.slots? fields with
  | [id, knowledgeBase, title, content] =>
    return { id := ← Json.required Json.asString id
             knowledgeBase := ⟨← Json.required Json.asString knowledgeBase⟩
             title := ← Json.required Json.asString title
             content := ← Json.required Json.asString content }
  | _ => none

def toJson (d : Document) : Json :=
  .object [("id", .string d.id), ("knowledge_base_id", .string d.knowledgeBase.name),
    ("title", .string d.title), ("content", .string d.content)]

/-- The document that a text stands for. -/
def read? (s : String) : Option Document :=
  (Json.parse? s).bind ofJson?

/-- The text of a document. -/
def write (d : Document) : String :=
  d.toJson.text

end Document

end AgentConsole
