/-!
# Requests that cannot be carried out

What can be wrong with a request of the user, apart from what the outside world refuses.
-/

namespace AgentConsole

/-- Why a request cannot be carried out. -/
inductive RequestError where
  | emptyContent
  | missingKnowledgeBase
  | missingWelcomeContent
  | unknownWelcomeAction (action : String)
  deriving DecidableEq, Repr

namespace RequestError

/-- The wording of an error. -/
def message : RequestError → String
  | .emptyContent => "Content cannot be empty"
  | .missingKnowledgeBase =>
    "No knowledge base ID provided or found in environment variable STRANDS_KNOWLEDGE_BASE_ID"
  | .missingWelcomeContent => "content is required for edit action"
  | .unknownWelcomeAction action => "Unknown action: " ++ action

/-- Whether something is missing or blank, as opposed to wrong. -/
def isValidation : RequestError → Bool
  | .unknownWelcomeAction _ => false
  | _ => true

end RequestError

end AgentConsole
