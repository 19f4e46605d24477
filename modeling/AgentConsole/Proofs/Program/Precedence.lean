import AgentConsole.Program.Perform
import AgentConsole.Proofs.Knowledge.Requests

/-!
# Which of two settings a command goes by

The name of the knowledge base and the system prompt may both be given with the command and in the
settings, and a name that is blank or a prompt that is empty is no better than none.  But the
program settles on what comes with the command as soon as there is something, and only then looks
whether it is of any use.  So something useless that comes with the command hides what the settings
say, and the command goes on as if nothing had been given anywhere.  In all other cases it goes by
the first of the two that is of use.

* `Program.run_goes_by` : what the commands that look at these settings come to.
-/

namespace AgentConsole.Program

/-! ## Two settings -/

/-- The first of two settings that is there and of use. -/
def preferred (useless : String → Bool) (given configured : Option String) : Option String :=
  (given.filter (!useless ·)).or (configured.filter (!useless ·))

/-- What is given is useless, and what is configured would be of use. -/
def hides (useless : String → Bool) (given configured : Option String) : Bool :=
  given.any useless && configured.any (!useless ·)

/-- What the program goes by: nothing, if what it would go by is hidden. -/
def effective (useless : String → Bool) (given configured : Option String) : Option String :=
  if hides useless given configured then none else preferred useless given configured

/-- To look whether a setting is of use once the choice has been made leaves what is effective. -/
theorem filter_orElse (useless : String → Bool) (given configured : Option String) :
    (given.orElse fun _ ↦ configured).filter (!useless ·) =
      effective useless given configured := by
  cases given with
  | none => rfl
  | some value =>
    cases h : useless value with
    | false => simp [effective, preferred, hides, Option.filter_some, h]
    | true =>
      cases configured with
      | none => simp [effective, preferred, hides, Option.filter_some, h]
      | some value' =>
        cases h' : useless value' with
        | false => simp [effective, hides, Option.filter_some, h, h']
        | true => simp [effective, preferred, hides, Option.filter_some, h, h']

/-! ## Commands -/

variable (s : Surroundings) (x : Settings)

/-- A run that stores a document. -/
def keeping (d : Document) : Run :=
  .say (unlines (StoreRequest.receipt d).summary) ((library s x).put d s.disk).2

/-- What storing content comes to, with a name for the knowledge base if there is one. -/
def storing (name : Option String) (content : String) (title : Option String) : Run :=
  match contentOf s content with
  | .error e => .fail (.io e) s.disk
  | .ok content =>
    if Text.isBlank content then .fail (.storing (.invalid .emptyContent)) s.disk
    else
      match name with
      | none => .fail (.storing (.invalid .missingKnowledgeBase)) s.disk
      | some name =>
        keeping s x
          { id := s.stamp.documentId
            knowledgeBase := ⟨Text.trim name⟩
            title := (title.filter (!Text.isBlank ·)).getD s.stamp.title
            content }

/-- What storing a conversation comes to, with a name for the knowledge base if there is one. -/
def remembering (name : Option String) (user : String) (response : Option String) : Run :=
  match response.mapM (readMessage s.disk) with
  | .error e => .fail e s.disk
  | .ok answer =>
    match name with
    | none => .silent s.disk
    | some name => keeping s x ((Conversation.compose user answer).documentFor s.stamp name)

/-- What showing the system prompt comes to, with the one that the user has set if there is one. -/
def prompting (prompt : Option String) : Run :=
  .say (prompt.getD ((Prompt.fromFile s.disk Prompt.fileName).getD Prompt.defaultText) ++ "\n")
    s.disk

theorem firstVisible_default (default : Option String) :
    KnowledgeBaseId.firstVisible [none, default] = default.filter (!Text.isBlank ·) := by
  rw [KnowledgeBaseId.firstVisible, List.findSome?_cons, Option.filter_none,
    List.findSome?_singleton]

theorem store_eq_storing (default : Option String) (content : String) (title : Option String) :
    store s x default content title = storing s x (default.filter (!Text.isBlank ·))
      content title := by
  unfold store storing
  cases contentOf s content with
  | error e => rfl
  | ok text =>
    have hname := firstVisible_default default
    cases hblank : Text.isBlank text with
    | true =>
      have hstored : (library s x).store default true s.stamp ⟨text, title, none⟩ s.disk = _ :=
        Library.store_of_error _ _ (StoreRequest.document_of_isBlank hblank)
      simp only [hstored, hblank, if_true]
    | false =>
      cases hfilter : default.filter (!Text.isBlank ·) with
      | none =>
        have hstored :
            (library s x).store default true s.stamp ⟨text, title, none⟩ s.disk = _ :=
          Library.store_of_error _ _ (StoreRequest.document_of_none hblank (hname.trans hfilter))
        simp only [hstored, hblank]
        rfl
      | some name =>
        have hstored :
            (library s x).store default true s.stamp ⟨text, title, none⟩ s.disk = _ :=
          Library.store_of_document _ _ (StoreRequest.document_of_name hblank (hname.trans hfilter))
        simp only [hstored, hblank]
        rfl

theorem storeConversation_eq_remembering (default : Option String) (user : String)
    (response : Option String) :
    storeConversation s x default user response =
      remembering s x (default.filter (!Text.isBlank ·)) user response := by
  unfold storeConversation remembering
  cases response.mapM (readMessage s.disk) with
  | error e => rfl
  | ok answer =>
    have hname := firstVisible_default default
    cases hfilter : default.filter (!Text.isBlank ·) with
    | none =>
      rw [hfilter] at hname
      simp only [Library.storeConversation_of_none _ _ _ _ _ _ hname]
    | some name =>
      rw [hfilter] at hname
      simp only [Library.storeConversation_of_name _ _ _ _ _ hname]
      rfl

theorem prompt_eq_prompting (a : Arguments) :
    prompt s x a =
      prompting s ((a.systemPrompt.orElse fun _ ↦ x.prompt).filter (!String.isEmpty ·)) := by
  have huseless : (fun p : String ↦ decide (p ≠ "")) = (!String.isEmpty ·) := by
    funext p
    rw [Bool.eq_iff_iff, decide_eq_true_iff, Bool.not_eq_true', ← Bool.not_eq_true,
      String.isEmpty_iff]
  simp only [prompt, prompting, Prompt.resolve, huseless]
  cases (a.systemPrompt.orElse fun _ ↦ x.prompt).filter (!String.isEmpty ·) <;> rfl

/-- A command that looks for the name of the knowledge base or for the system prompt goes by what is
given with it and of use, or else by what is configured and of use, unless the latter is hidden by
something useless that is given; then it goes by nothing. -/
theorem run_goes_by {s : Surroundings} {a : Arguments} {x : Settings} (hshow : a.showConfig = false)
    (hsettings : settings s a = .ok x) :
    let name := effective Text.isBlank a.knowledgeBase x.knowledge.id
    let words := effective String.isEmpty a.systemPrompt x.prompt
    (∀ content title, a.command = some (.store content title) →
      run s a = storing s x name content title) ∧
    (∀ user response, a.command = some (.storeConversation user response) →
      run s a = remembering s x name user response) ∧
    (a.command = some .prompt → run s a = prompting s words) := by
  have hrun : run s a = perform s x a := by
    rw [run, hshow, hsettings]
    rfl
  refine ⟨fun content title hcommand ↦ ?_, fun user response hcommand ↦ ?_,
    fun hcommand ↦ ?_⟩
  · rw [hrun, perform, hcommand, ← filter_orElse]
    exact store_eq_storing s x _ content title
  · rw [hrun, perform, hcommand, ← filter_orElse]
    exact storeConversation_eq_remembering s x _ user response
  · rw [hrun, perform, hcommand, ← filter_orElse]
    exact prompt_eq_prompting s x a

/-- Surroundings with a settings file in the working directory and nothing else. -/
def surroundingsOf (environment : String → Option String) (file : String) : Surroundings :=
  { disk :=
      ⟨[(["home"], .directory), (["home", "strands.toml"], .file (Text.encode file))], ["home"]⟩
    environment
    input := .ok []
    stamp := ⟨"20250102_030405", "0123abcd"⟩
    timestamp := "2025-01-02T03:04:05.678Z" }

/-- A name on the command line, and one in the settings that a prompt is set in as well. -/
theorem run_goes_by_given_name :
    let s := surroundingsOf (fun _ ↦ none)
      "[knowledge_base]\nid='CFG'\n[prompt]\nsystem_prompt='cfg'"
    let a : Arguments :=
      ⟨0, none, false, false, some " notes ", none, false, some (.store "a" (some "T"))⟩
    let a' : Arguments := { a with command := some .prompt }
    ∃ x, settings s a = .ok x ∧ settings s a' = .ok x ∧ a.showConfig = false ∧
      a'.showConfig = false ∧
      run s a = keeping s x ⟨"memory_20250102_030405_0123abcd", ⟨"notes"⟩, "T", "a"⟩ ∧
      run s a' = .say "cfg\n" s.disk := by
  intro s a a'
  let x : Settings := { knowledge := { id := some "CFG" }, prompt := some "cfg" }
  have hsettings : settings s a = .ok x := eq_ok_of_toOption (by decide +kernel)
  have hstore := (run_goes_by (a := a) rfl hsettings).1 "a" (some "T") rfl
  have hprompt := (run_goes_by (a := a') rfl hsettings).2.2 rfl
  exact ⟨x, hsettings, hsettings, rfl, rfl, hstore, hprompt⟩

/-- Variables that are there but empty, over settings that could be used. -/
theorem run_hides_configured :
    let environment :=
      ([("STRANDS_KNOWLEDGE_BASE_ID", ""), ("STRANDS_SYSTEM_PROMPT", "")].lookup ·)
    let s := surroundingsOf environment "[knowledge_base]\nid='CFG'\n[prompt]\nsystem_prompt='cfg'"
    ∃ a a' x, Arguments.parse environment ["store", "note", "--title", "t"] = .ok a ∧
      Arguments.parse environment ["prompt"] = .ok a' ∧ settings s a = .ok x ∧
      settings s a' = .ok x ∧
      a.knowledgeBase = some "" ∧ x.knowledge.id = some "CFG" ∧
      (run s a).error = some (.storing (.invalid .missingKnowledgeBase)) ∧
      a'.systemPrompt = some "" ∧ x.prompt = some "cfg" ∧
      (run s a').stdout = "You are a helpful assistant.\n" := by
  intro environment s
  let a : Arguments :=
    ⟨0, none, false, false, some "", some "", false, some (.store "note" (some "t"))⟩
  let a' : Arguments := { a with command := some .prompt }
  let x : Settings := { knowledge := { id := some "CFG" }, prompt := some "cfg" }
  have ha : (Arguments.parse environment ["store", "note", "--title", "t"]).toOption = some a := by
    decide +kernel
  have ha' : (Arguments.parse environment ["prompt"]).toOption = some a' := by decide +kernel
  have hx : (settings s a).toOption = some x := by decide +kernel
  refine ⟨a, a', x, eq_ok_of_toOption ha, eq_ok_of_toOption ha', eq_ok_of_toOption hx,
    eq_ok_of_toOption hx, rfl, rfl, ?_, rfl, rfl, ?_⟩
  · decide +kernel
  · decide +kernel

end AgentConsole.Program
