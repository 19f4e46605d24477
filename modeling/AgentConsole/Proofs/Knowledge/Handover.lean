import AgentConsole.Proofs.Knowledge.Requests

/-!
# What is handed over to a library

Whoever asks to store something is answered before the library has been, so the answer can only tell
what is wrong with the request itself.  It does tell that, and nothing is handed over then;
otherwise one document is, and the receipt is for this one.  What the library makes of it shows
nowhere in the answer.

A library is watched through `Library.listing`, which keeps a list of the documents that it is
handed, also of those that it cannot take.

* `Library.store_hands_over` : the answer to a request, and what is handed over.
* `Library.storeConversation_hands_over` : the same of a conversation, which has no answer that is
  an error.
-/

namespace AgentConsole

/-- A text that is not given, or is blank. -/
def Text.IsMissing (given : Option String) : Prop := ∀ text ∈ given, isBlank text = true

namespace Text

theorem isMissing_iff_filter {given : Option String} :
    IsMissing given ↔ given.filter (!isBlank ·) = none := by
  simp [IsMissing, Option.filter_eq_none_iff]

theorem not_isMissing_of_mem {given : Option String} {text : String} (hmem : text ∈ given)
    (hvisible : isBlank text = false) : ¬ IsMissing given := by
  intro hmissing
  rw [hmissing text hmem] at hvisible
  cases hvisible

end Text

open Text (IsMissing)

/-! ## The first of two names -/

namespace KnowledgeBaseId

variable {given default : Option String} {name : String}

theorem firstVisible_pair (given default : Option String) :
    firstVisible [given, default] = (given.filter (!Text.isBlank ·)).or
      (default.filter (!Text.isBlank ·)) := by
  rw [firstVisible, List.findSome?_cons, List.findSome?_singleton]
  cases given.filter (!Text.isBlank ·) <;> rfl

theorem firstVisible_pair_eq_none_iff :
    firstVisible [given, default] = none ↔ IsMissing given ∧ IsMissing default := by
  rw [firstVisible_pair, Option.or_eq_none_iff, Text.isMissing_iff_filter,
    Text.isMissing_iff_filter]

theorem firstVisible_pair_eq_some_iff :
    firstVisible [given, default] = some name ↔
      Text.isBlank name = false ∧ (name ∈ given ∨ IsMissing given ∧ name ∈ default) := by
  rw [firstVisible_pair, Option.or_eq_some_iff, ← Text.isMissing_iff_filter]
  simp only [Option.filter_eq_some_iff, Bool.not_eq_true', Option.mem_def]
  tauto

end KnowledgeBaseId

/-! ## Documents -/

namespace StoreRequest

/-- A document is the one that a request asks to store. -/
structure AsksFor (default : Option String) (stamp : Stamp) (r : StoreRequest)
    (d : Document) : Prop where
  content : d.content = r.content
  title : ∀ title ∈ r.title, Text.isBlank title = false → d.title = title
  madeUpTitle : IsMissing r.title → d.title = "Strands Memory " ++ stamp.time
  named : ∀ name ∈ r.knowledgeBase, Text.isBlank name = false →
    d.knowledgeBase = ⟨Text.trim name⟩
  byDefault : IsMissing r.knowledgeBase →
    ∃ name ∈ default, Text.isBlank name = false ∧ d.knowledgeBase = ⟨Text.trim name⟩

theorem asksFor_documentFor {default : Option String} {r : StoreRequest} {name : String}
    (stamp : Stamp) (h : KnowledgeBaseId.firstVisible [r.knowledgeBase, default] = some name) :
    r.AsksFor default stamp (r.documentFor stamp name) := by
  obtain ⟨hvisible, hname⟩ := KnowledgeBaseId.firstVisible_pair_eq_some_iff.mp h
  refine ⟨rfl, ?_, ?_, ?_, ?_⟩
  · intro title htitle hshown
    rw [documentFor, Option.mem_def.mp htitle, Option.filter_some, hshown]
    rfl
  · intro hmissing
    rw [documentFor, Text.isMissing_iff_filter.mp hmissing]
    rfl
  · intro other hother hshown
    rcases hname with hname | ⟨hmissing, -⟩
    · rw [documentFor, Option.mem_unique hname hother]
    · exact absurd hmissing (Text.not_isMissing_of_mem hother hshown)
  · intro hmissing
    rcases hname with hname | ⟨-, hname⟩
    · exact absurd hmissing (Text.not_isMissing_of_mem hname hvisible)
    · exact ⟨name, hname, hvisible, rfl⟩

end StoreRequest

/-! ## Libraries -/

namespace Library

open KnowledgeBaseId (firstVisible)

variable {World : Type} (l : Library World) (default : Option String) (stamp : Stamp) (w : World)

/-- A library that also keeps a list of what it is handed, whether or not it can take it. -/
def listing : Library (World × List Document) where
  ingest d w := ((l.ingest d w.1).1, (l.ingest d w.1).2, w.2 ++ [d])

/-- A library goes on as if there were no list. -/
theorem put_listing (d : Document) (handed : List Document) :
    l.listing.put d (w, handed) = ((l.put d w).1, (l.put d w).2, handed ++ [d]) := by
  have hlisting :
      l.listing.ingest d (w, handed) = ((l.ingest d w).1, (l.ingest d w).2, handed ++ [d]) := rfl
  rw [put, hlisting, put]
  rcases l.ingest d w with ⟨o, w'⟩
  cases o with
  | ok entries => rfl
  | error e => rfl

/-- A request to store something is answered in one of three ways.  Blank content is refused first,
and then a request that leaves no name for the knowledge base; nothing is handed over in these two
cases.  In all others there is a receipt for the one document that is handed over, which is the one
asked for.

Every library gets the request answered alike. -/
theorem store_hands_over (r : StoreRequest) :
    let s := l.listing.store default true stamp r (w, [])
    (s.result = .error (.invalid .emptyContent) ↔ Text.isBlank r.content = true) ∧
    (s.result = .error (.invalid .missingKnowledgeBase) ↔
      Text.isBlank r.content = false ∧ IsMissing r.knowledgeBase ∧ IsMissing default) ∧
    ((∃ receipt, s.result = .ok receipt) ↔
      Text.isBlank r.content = false ∧ ¬ (IsMissing r.knowledgeBase ∧ IsMissing default)) ∧
    (∀ e, s.result = .error e → s.world = (w, [])) ∧
    (∀ receipt, s.result = .ok receipt →
      ∃ d, s.world.2 = [d] ∧ r.AsksFor default stamp d ∧
      receipt = ⟨d.id, d.title, d.knowledgeBase⟩) ∧
    ∀ (World' : Type) (l' : Library World') (w' : World'),
      (l'.store default true stamp r w').result = s.result := by
  intro s
  cases hcontent : Text.isBlank r.content with
  | true =>
    have hdocument : r.document default true stamp = _ := StoreRequest.document_of_isBlank hcontent
    have hs : s = _ := l.listing.store_of_error (w, []) hdocument
    have hother (World' : Type) (l' : Library World') (w' : World') :=
      l'.store_of_error w' hdocument
    simp [hs, hother]
  | false =>
    cases hname : firstVisible [r.knowledgeBase, default] with
    | none =>
      have hmissing := KnowledgeBaseId.firstVisible_pair_eq_none_iff.mp hname
      have hdocument : r.document default true stamp = _ :=
        StoreRequest.document_of_none hcontent hname
      have hs : s = _ := l.listing.store_of_error (w, []) hdocument
      have hother (World' : Type) (l' : Library World') (w' : World') :=
        l'.store_of_error w' hdocument
      simp [hs, hother, hmissing]
    | some name =>
      have hgiven : ¬ (IsMissing r.knowledgeBase ∧ IsMissing default) := by
        rw [← KnowledgeBaseId.firstVisible_pair_eq_none_iff, hname]
        simp
      have hdocument : r.document default true stamp = _ :=
        StoreRequest.document_of_name hcontent hname
      have hs : s = _ := l.listing.store_of_document (w, []) hdocument
      have hother (World' : Type) (l' : Library World') (w' : World') :=
        l'.store_of_document w' hdocument
      have hasks := StoreRequest.asksFor_documentFor stamp hname
      simp [hs, hother, hgiven, put_listing, hasks, StoreRequest.receipt]

/-- A library that cannot take the document.  The title and the name in the request are blank, so
the title is made up and the name is the other one. -/
theorem store_hands_over_to_closed :
    let stamp : Stamp := ⟨"20250102_030405", "0123abcd"⟩
    let r : StoreRequest := ⟨"note", some " ", some "\t"⟩
    let s := (closed : Library Unit).listing.store (some " KB ") true stamp r ((), [])
    ∃ d, s.world.2 = [d] ∧ s.result = .ok ⟨d.id, d.title, d.knowledgeBase⟩ ∧
      d.content = "note" ∧
      d.title = "Strands Memory 20250102_030405" ∧ d.knowledgeBase = ⟨"KB"⟩ := by
  intro stamp r s
  have hcontent : Text.isBlank r.content = false := by decide
  have hdefault : ¬ IsMissing (some " KB ") := Text.not_isMissing_of_mem rfl (by decide)
  have htitle : IsMissing r.title := by
    simp only [IsMissing, r, Option.mem_some, forall_eq']; decide
  have hname : IsMissing r.knowledgeBase := by
    simp only [IsMissing, r, Option.mem_some, forall_eq']; decide
  obtain ⟨-, -, hanswered, -, hhanded, -⟩ :=
    (closed : Library Unit).store_hands_over (some " KB ") stamp () r
  obtain ⟨receipt, hreceipt⟩ := hanswered.mpr ⟨hcontent, fun h ↦ hdefault h.2⟩
  obtain ⟨d, hd, hasks, rfl⟩ := hhanded receipt hreceipt
  obtain ⟨name, hmem, -, hknowledgeBase⟩ := hasks.byDefault hname
  obtain rfl := Option.some.inj hmem
  exact ⟨d, hd, hreceipt, hasks.content, hasks.madeUpTitle htitle,
    hknowledgeBase.trans (by decide)⟩

/-! ## Conversations -/

/-- To store a conversation is never an error.  Where no name is left for the knowledge base there
is no receipt and nothing is handed over.  Otherwise there is a receipt for the one document that is
handed over.  It has the title and the content of the conversation as they are, and goes to the
knowledge base that the two names resolve to. -/
theorem storeConversation_hands_over (user : String) (answer : Option Message)
    (explicit : Option String) :
    let s := l.listing.storeConversation default true stamp user answer explicit (w, [])
    let c := Conversation.compose user answer
    (∀ e, s.result ≠ .error e) ∧
    (s.result = .ok none ∧ s.world = (w, []) ↔ IsMissing explicit ∧ IsMissing default) ∧
    (¬ (IsMissing explicit ∧ IsMissing default) →
      ∃ d, s.result = .ok (some ⟨d.id, d.title, d.knowledgeBase⟩) ∧ s.world.2 = [d] ∧
        d.title = c.title ∧ d.content = c.content ∧
        StoreRequest.resolve default explicit = .ok d.knowledgeBase) := by
  intro s c
  rw [← KnowledgeBaseId.firstVisible_pair_eq_none_iff]
  cases hname : firstVisible [explicit, default] with
  | none =>
    have hs : s = _ := l.listing.storeConversation_of_none true stamp user answer (w, []) hname
    simp [hs]
  | some name =>
    have hs : s = _ := l.listing.storeConversation_of_name stamp user answer (w, []) hname
    refine ⟨by simp [hs], by simp [hs],
      fun _ ↦ ⟨c.documentFor stamp name, ?_, ?_, rfl, rfl, ?_⟩⟩
    · rw [hs]
      rfl
    · rw [hs, put_listing]
      rfl
    · exact KnowledgeBaseId.resolve_of_visible hname

/-- The user has said nothing, and the name given for the knowledge base is blank. -/
theorem storeConversation_hands_over_silence :
    let s := shelf.listing.storeConversation (some "notes\n") true
      ⟨"20250102_030405", "0123abcd"⟩ " " none (some "") ([], [])
    ∃ d, s.result = .ok (some ⟨d.id, d.title, d.knowledgeBase⟩) ∧ s.world.2 = [d] ∧
      d.title = "Conversation:  " ∧ d.content = "User:  " ∧
      d.knowledgeBase = ⟨"notes"⟩ := by
  intro s
  have hdefault : ¬ IsMissing (some "notes\n") := Text.not_isMissing_of_mem rfl (by decide)
  obtain ⟨-, -, hhanded⟩ := shelf.storeConversation_hands_over (some "notes\n")
    ⟨"20250102_030405", "0123abcd"⟩ [] " " none (some "")
  obtain ⟨d, hresult, hd, htitle, hcontent, hresolve⟩ := hhanded fun h ↦ hdefault h.2
  have hknowledgeBase : StoreRequest.resolve (some "notes\n") (some "") = .ok ⟨"notes"⟩ := by
    decide
  refine ⟨d, hresult, hd, htitle.trans (by decide), hcontent.trans (by decide), ?_⟩
  exact Except.ok.inj (hresolve.symm.trans hknowledgeBase)

end Library

end AgentConsole
