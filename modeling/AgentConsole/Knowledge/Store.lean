import AgentConsole.Disk.Basic
import AgentConsole.Knowledge.Conversation
import AgentConsole.Knowledge.Document
import AgentConsole.Log

/-!
# Storing documents

A request to store something is checked at once and answered with a receipt; the document itself is
stored in the background, and whether that succeeds only shows in the log.  Titles and identifiers
that the program makes up come from a `Stamp`.
-/

namespace AgentConsole

/-- The time of a request and something to tell it from others of that time. -/
structure Stamp where
  /-- The time, to the second. -/
  time : String
  serial : String
  deriving DecidableEq, Repr

/-- What the user wants stored. -/
structure StoreRequest where
  content : String
  title : Option String
  knowledgeBase : Option String
  deriving DecidableEq, Repr

/-- Why nothing is stored. -/
inductive StoreError where
  | invalid (e : RequestError)
  /-- Nothing can run in the background. -/
  | noBackground
  deriving DecidableEq, Repr

/-- The wording of an error. -/
def StoreError.message : StoreError → String
  | .invalid e => e.message
  | .noBackground => "No async runtime available for background storage"

/-- What is said about a document on its way. -/
structure Receipt where
  documentId : String
  title : String
  knowledgeBase : KnowledgeBaseId
  deriving DecidableEq, Repr

/-- A receipt as the user sees it. -/
def Receipt.summary (r : Receipt) : List String :=
  ["Started background task to store content in knowledge base:", "Title: " ++ r.title,
    "Knowledge Base ID: " ++ r.knowledgeBase.name, "Processing in background..."]

/-- Why a document could not be stored. -/
inductive IngestError where
  | io (e : IoError)
  | unavailable (knowledgeBase : String)
  deriving DecidableEq, Repr

/-- The wording of an error. -/
def IngestError.message : IngestError → String
  | .io e => "Knowledge base I/O error: " ++ e.message
  | .unavailable knowledgeBase => "Knowledge base " ++ knowledgeBase ++ " is unavailable"

/-- Where documents go: a function on a world of its own, which may also say something. -/
structure Library (World : Type) where
  ingest : Document → World → Except IngestError (List LogEntry) × World

namespace Library

/-- A library that just keeps the documents. -/
def shelf : Library (List Document) :=
  ⟨fun d kept ↦ (.ok [], kept ++ [d])⟩

/-- A library that is never there. -/
def closed {World : Type} : Library World :=
  ⟨fun d w ↦ (.error (.unavailable d.knowledgeBase.name), w)⟩

variable {World : Type}

/-- Stores a document in the background. -/
def put (l : Library World) (d : Document) (w : World) : List LogEntry × World :=
  match l.ingest d w with
  | (.ok entries, w) =>
    let message := "Stored document " ++ d.id ++ " in knowledge base " ++ d.knowledgeBase.name
    (entries ++ [{ severity := .info, message }], w)
  | (.error e, w) =>
    let message :=
      "Error ingesting into knowledge base " ++ d.knowledgeBase.name ++ ": " ++ e.message
    ([{ severity := .error, message }], w)

end Library

/-! ## Requests -/

/-- The identifier of a document. -/
def Stamp.documentId (s : Stamp) : String :=
  "memory_" ++ s.time ++ "_" ++ s.serial

/-- The title of a document that the user gave none. -/
def Stamp.title (s : Stamp) : String :=
  "Strands Memory " ++ s.time

namespace StoreRequest

/-- The knowledge base of a request: the one that it names, or else the default. -/
def resolve (default : Option String) (explicit : Option String) :
    Except RequestError KnowledgeBaseId :=
  KnowledgeBaseId.resolve [explicit, default]

/-- The document that a request asks to store. -/
def document (default : Option String) (background : Bool) (stamp : Stamp) (r : StoreRequest) :
    Except StoreError Document := do
  if Text.isBlank r.content then throw (.invalid .emptyContent)
  let knowledgeBase ← (resolve default r.knowledgeBase).mapError .invalid
  if !background then throw .noBackground
  let title := (r.title.filter (!Text.isBlank ·)).getD stamp.title
  (Document.make stamp.documentId knowledgeBase title r.content).mapError .invalid

/-- The receipt for a document. -/
def receipt (d : Document) : Receipt :=
  { documentId := d.id, title := d.title, knowledgeBase := d.knowledgeBase }

end StoreRequest

/-- What has come of a request. -/
structure Stored (World : Type) (α : Type) where
  result : Except StoreError α
  log : List LogEntry
  world : World

variable {World : Type}

/-- Answers a request and stores its document. -/
def Library.store (l : Library World) (default : Option String) (background : Bool) (stamp : Stamp)
    (r : StoreRequest) (w : World) : Stored World Receipt :=
  match r.document default background stamp with
  | .error e => { result := .error e, log := [], world := w }
  | .ok d =>
    let (log, w) := l.put d w
    { result := .ok (StoreRequest.receipt d), log, world := w }

/-- Stores a conversation, if there is a knowledge base to store it in. -/
def Library.storeConversation (l : Library World) (default : Option String) (background : Bool)
    (stamp : Stamp) (user : String) (answer : Option Message) (explicit : Option String)
    (w : World) : Stored World (Option Receipt) :=
  match StoreRequest.resolve default explicit with
  | .error _ =>
    { result := .ok none
      log := [{
        severity := .debug
        message := "No knowledge base configured, conversation not stored" }]
      world := w }
  | .ok id =>
    let c := Conversation.compose user answer
    let s := l.store default background stamp
      { content := c.content, title := some c.title, knowledgeBase := some id.name } w
    { result := s.result.map some, log := s.log, world := s.world }

end AgentConsole
