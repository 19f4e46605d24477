import AgentConsole.Knowledge.Store
import AgentConsole.Proofs.Knowledge.Validity

/-!
# What requests to store something come to

What is wrong with a request is found in a fixed order: content that is blank, then no name for the
knowledge base, then nothing to run in the background.  Once none of these is wrong nothing else can
be, and the document is the one that can be read off the request.

A conversation is stored by such a request.  It is never blank and neither is its title, so what is
asked for is stored as it stands, and without a name there is just nothing to do.

* `StoreRequest.document_of_name` : the document of a request that nothing is wrong with.
* `Library.storeConversation_of_name` : what storing a conversation comes to.
-/

namespace AgentConsole

/-! ## Names -/

namespace KnowledgeBaseId

/-- The first of several names that is there and not blank. -/
def firstVisible (candidates : List (Option String)) : Option String :=
  candidates.findSome? (·.filter (!Text.isBlank ·))

variable {candidates : List (Option String)}

theorem toOption_parse (name : String) :
    (parse name).toOption = ((some name).filter (!Text.isBlank ·)).map (⟨Text.trim ·⟩) := by
  cases h : Text.isBlank name with
  | true =>
    rw [parse_of_isBlank h, Option.filter_some, h]
    rfl
  | false =>
    rw [parse_of_not_isBlank h, Option.filter_some, h]
    rfl

theorem findSome?_parse (candidates : List (Option String)) :
    (candidates.findSome? fun c ↦ c.bind fun name ↦ (parse name).toOption) =
      (firstVisible candidates).map (⟨Text.trim ·⟩) := by
  rw [firstVisible, List.map_findSome?]
  congr 1
  funext c
  cases c with
  | none => rfl
  | some name => exact toOption_parse name

theorem resolve_of_visible {name : String} (h : firstVisible candidates = some name) :
    resolve candidates = .ok ⟨Text.trim name⟩ := by
  rw [resolve, findSome?_parse, h]
  rfl

theorem resolve_of_none (h : firstVisible candidates = none) :
    resolve candidates = .error .missingKnowledgeBase := by
  rw [resolve, findSome?_parse, h]
  rfl

theorem isBlank_of_firstVisible {name : String} (h : firstVisible candidates = some name) :
    Text.isBlank name = false := by
  obtain ⟨c, -, hc⟩ := List.exists_of_findSome?_eq_some h
  obtain ⟨-, hname⟩ := Option.filter_eq_some_iff.mp hc
  simpa using hname

/-- A name that has been trimmed stands before all others. -/
theorem firstVisible_trim {name : String} (h : Text.isBlank name = false)
    (candidates : List (Option String)) :
    firstVisible (some (Text.trim name) :: candidates) = some (Text.trim name) := by
  rw [firstVisible, List.findSome?_cons, Option.filter_some, Text.isBlank_trim, h]
  rfl

end KnowledgeBaseId

/-! ## Documents -/

namespace StoreRequest

open KnowledgeBaseId (firstVisible)

variable {default : Option String} {background : Bool} {stamp : Stamp} {r : StoreRequest}
  {name : String}

/-- The document that a request is for, with a name for the knowledge base. -/
def documentFor (stamp : Stamp) (name : String) (r : StoreRequest) : Document :=
  { id := stamp.documentId
    knowledgeBase := ⟨Text.trim name⟩
    title := (r.title.filter (!Text.isBlank ·)).getD stamp.title
    content := r.content }

theorem document_of_isBlank (h : Text.isBlank r.content = true) :
    r.document default background stamp = .error (.invalid .emptyContent) := by
  simp only [document, h, if_true]
  rfl

theorem document_of_none (hcontent : Text.isBlank r.content = false)
    (hname : firstVisible [r.knowledgeBase, default] = none) :
    r.document default background stamp = .error (.invalid .missingKnowledgeBase) := by
  rw [document, resolve, KnowledgeBaseId.resolve_of_none hname, hcontent]
  rfl

/-- Nothing else can be wrong with a request that has content and a name. -/
theorem document_of_name (hcontent : Text.isBlank r.content = false)
    (hname : firstVisible [r.knowledgeBase, default] = some name) :
    r.document default true stamp = .ok (r.documentFor stamp name) := by
  rw [document, resolve, KnowledgeBaseId.resolve_of_visible hname, hcontent]
  simp only [Except.mapError, Document.make_eq_ok_iff.mpr ⟨hcontent, rfl⟩]
  rfl

end StoreRequest

namespace Library

variable {World : Type} {default : Option String} {background : Bool} {stamp : Stamp}
  {r : StoreRequest}
variable {d : Document} {e : StoreError}

theorem store_of_error (l : Library World) (w : World)
    (h : r.document default background stamp = .error e) :
    l.store default background stamp r w = { result := .error e, log := [], world := w } := by
  rw [store, h]

theorem store_of_document (l : Library World) (w : World)
    (h : r.document default background stamp = .ok d) :
    l.store default background stamp r w =
      { result := .ok (StoreRequest.receipt d), log := (l.put d w).1, world := (l.put d w).2 } := by
  rw [store, h]

end Library

/-! ## Conversations -/

namespace Conversation

/-- A conversation is never blank, since it says whose words these are. -/
theorem isBlank_content_compose (user : String) (answer : Option Message) :
    Text.isBlank (compose user answer).content = false := by
  cases answer with
  | none => exact Text.isBlank_append_of_left _ (by decide)
  | some m =>
    have hstart : Text.isBlank "User: " = false := by decide
    exact Text.isBlank_append_of_left _
      (Text.isBlank_append_of_left _ (Text.isBlank_append_of_left _ hstart))

theorem isBlank_title_compose (user : String) (answer : Option Message) :
    Text.isBlank (compose user answer).title = false :=
  Text.isBlank_append_of_left _ (Text.isBlank_append_of_left _ (by decide))

/-- The document for a conversation, with a name for the knowledge base. -/
def documentFor (stamp : Stamp) (name : String) (c : Conversation) : Document :=
  { id := stamp.documentId, knowledgeBase := ⟨Text.trim name⟩, title := c.title,
    content := c.content }

end Conversation

namespace Library

open KnowledgeBaseId (firstVisible)

variable {World : Type} {default explicit : Option String} {name : String}

theorem storeConversation_of_none (l : Library World) (background : Bool) (stamp : Stamp)
    (user : String) (answer : Option Message) (w : World)
    (h : firstVisible [explicit, default] = none) :
    l.storeConversation default background stamp user answer explicit w =
      { result := .ok none
        log := [{
          severity := .debug
          message := "No knowledge base configured, conversation not stored" }]
        world := w } := by
  rw [storeConversation, StoreRequest.resolve, KnowledgeBaseId.resolve_of_none h]

/-- The request for a conversation names the knowledge base by a name that has been trimmed, and
asks for a title that is not blank, so both are left as they are. -/
theorem storeConversation_of_name (l : Library World) (stamp : Stamp) (user : String)
    (answer : Option Message) (w : World) (h : firstVisible [explicit, default] = some name) :
    let d := (Conversation.compose user answer).documentFor stamp name
    l.storeConversation default true stamp user answer explicit w =
      { result := .ok (some (StoreRequest.receipt d)), log := (l.put d w).1,
        world := (l.put d w).2 } := by
  intro d
  let c := Conversation.compose user answer
  let r : StoreRequest :=
    { content := c.content, title := some c.title, knowledgeBase := some (Text.trim name) }
  have hname : firstVisible [r.knowledgeBase, default] = some (Text.trim name) :=
    KnowledgeBaseId.firstVisible_trim (KnowledgeBaseId.isBlank_of_firstVisible h) _
  have hdocument : r.documentFor stamp (Text.trim name) = d := by
    have htitle : (r.title.filter (!Text.isBlank ·)).getD stamp.title = c.title := by
      simp only [r, Option.filter_some, c, Conversation.isBlank_title_compose]
      rfl
    rw [StoreRequest.documentFor, htitle, Text.trim_trim]
    rfl
  have hrequest : r.document default true stamp = .ok d :=
    hdocument ▸ StoreRequest.document_of_name (Conversation.isBlank_content_compose user answer)
      hname
  have hstored := l.store_of_document w hrequest
  rw [storeConversation, StoreRequest.resolve, KnowledgeBaseId.resolve_of_visible h]
  change Stored.mk ((l.store default true stamp r w).result.map some) _ _ = _
  rw [hstored]
  rfl

end Library

end AgentConsole
