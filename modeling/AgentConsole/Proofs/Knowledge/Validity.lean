import AgentConsole.Knowledge.Document
import AgentConsole.Proofs.Json.Reread
import AgentConsole.Proofs.Text.Blank

/-!
# Which knowledge bases and documents there can be

A name that the user gives goes through `KnowledgeBaseId.parse`, which is also behind
`KnowledgeBaseId.resolve`, and a document that is made here goes through `Document.make`.  What
comes out has been checked, and everything that would pass the check comes out for some input.  A
document that is read from JSON has gone through neither: there is a text for every document that
can be thought of.

* `KnowledgeBaseId.parse_eq_ok_iff` : what parsing a name comes to.
* `Document.read?_write` : a document is read again, whatever is in it.
* `Document.constructed_iff` : which values come out of which constructors.
-/

namespace AgentConsole

theorem eq_ok_of_toOption {ε α : Type} {x : Except ε α} {a : α} (h : x.toOption = some a) :
    x = .ok a := by
  cases x with
  | error e => cases h
  | ok b => exact congrArg Except.ok (Option.some.inj h)

namespace KnowledgeBaseId

/-- A name that is not blank and has no white space at its ends. -/
structure Usable (id : KnowledgeBaseId) : Prop where
  visible : Text.isBlank id.name = false
  trimmed : Text.Trimmed id.name

theorem parse_of_isBlank {name : String} (h : Text.isBlank name = true) :
    parse name = .error .missingKnowledgeBase :=
  if_pos ((Text.isBlank_iff_trim name).mp h)

theorem parse_of_not_isBlank {name : String} (h : Text.isBlank name = false) :
    parse name = .ok ⟨Text.trim name⟩ := by
  refine if_neg fun he ↦ ?_
  rw [(Text.isBlank_iff_trim name).mpr he] at h
  cases h

theorem parse_eq_ok_iff {name : String} {id : KnowledgeBaseId} :
    parse name = .ok id ↔ Text.isBlank name = false ∧ id = ⟨Text.trim name⟩ := by
  cases h : Text.isBlank name with
  | true => simp [parse_of_isBlank h]
  | false => simp [parse_of_not_isBlank h, eq_comm]

theorem usable_of_parse {name : String} {id : KnowledgeBaseId} (h : parse name = .ok id) :
    id.Usable := by
  obtain ⟨hvisible, rfl⟩ := parse_eq_ok_iff.mp h
  exact ⟨(Text.isBlank_trim name).trans hvisible, Text.trimmed_trim name⟩

/-- A usable name stands for itself. -/
theorem Usable.parse_name {id : KnowledgeBaseId} (h : id.Usable) : parse id.name = .ok id := by
  rw [parse_of_not_isBlank h.visible, Text.trim_eq_self_iff.mpr h.trimmed]

/-- The name that is resolved to has been parsed. -/
theorem exists_parse_of_resolve {candidates : List (Option String)} {id : KnowledgeBaseId}
    (h : resolve candidates = .ok id) :
    ∃ name, some name ∈ candidates ∧ parse name = .ok id := by
  unfold resolve at h
  split at h
  · next id' hfound =>
    obtain rfl := Except.ok.inj h
    obtain ⟨c, hc, hparse⟩ := List.exists_of_findSome?_eq_some hfound
    obtain ⟨name, rfl, hname⟩ := Option.bind_eq_some_iff.mp hparse
    exact ⟨name, hc, eq_ok_of_toOption hname⟩
  · cases h

theorem Usable.resolve_name {id : KnowledgeBaseId} (h : id.Usable) :
    resolve [some id.name] = .ok id := by
  simp [resolve, h.parse_name, Except.toOption]

end KnowledgeBaseId

namespace Document

theorem make_eq_ok_iff {id title content : String} {knowledgeBase : KnowledgeBaseId}
    {d : Document} :
    make id knowledgeBase title content = .ok d ↔
      Text.isBlank content = false ∧ d = { id, knowledgeBase, title, content } := by
  unfold make
  cases Text.isBlank content with
  | true => simp
  | false => simp [eq_comm]

/-- A document is read again, whatever is in it. -/
theorem read?_write (d : Document) : read? d.write = some d := by
  rw [read?, write, Json.parse?_text]
  rfl

theorem required_asString_eq_some_iff {slot : Option Json} {text : String} :
    Json.required Json.asString slot = some text ↔ slot = some (.string text) := by
  cases slot with
  | none => simp [Json.required]
  | some j => cases j <;> simp [Json.required, Json.asString]

/-- The texts of a document are taken as they are given. -/
theorem ofJson?_eq_some_iff {j : Json} {d : Document} :
    ofJson? j = some d ↔ j.slots? fields =
      some ([d.id, d.knowledgeBase.name, d.title, d.content].map fun text ↦
        some (.string text)) := by
  unfold ofJson?
  constructor
  · intro h
    obtain ⟨slots, hslots, h⟩ := Option.bind_eq_some_iff.mp h
    split at h
    · obtain ⟨_, hid, h⟩ := Option.bind_eq_some_iff.mp h
      obtain ⟨_, hknowledgeBase, h⟩ := Option.bind_eq_some_iff.mp h
      obtain ⟨_, htitle, h⟩ := Option.bind_eq_some_iff.mp h
      obtain ⟨_, hcontent, h⟩ := Option.bind_eq_some_iff.mp h
      cases h
      rw [required_asString_eq_some_iff] at hid hknowledgeBase htitle hcontent
      rw [hslots, hid, hknowledgeBase, htitle, hcontent]
      rfl
    · cases h
  · intro hslots
    simp [hslots, Json.required, Json.asString]

/-- The names that parsing and resolving come to are the usable ones, and the documents that are
made here are those with content that is not blank.  A document that is read from JSON has the texts
that stand there, usable or not, and so every document comes of reading some text. -/
theorem constructed_iff (id : KnowledgeBaseId) (d : Document) (s : String) :
    ((∃ name, KnowledgeBaseId.parse name = .ok id) ↔ id.Usable) ∧
    ((∃ candidates, KnowledgeBaseId.resolve candidates = .ok id) ↔ id.Usable) ∧
    ((∃ id knowledgeBase title content, make id knowledgeBase title content = .ok d) ↔
      Text.isBlank d.content = false) ∧
    (read? s = some d ↔ ∃ j, Json.parse? s = some j ∧ j.slots? fields =
      some ([d.id, d.knowledgeBase.name, d.title, d.content].map fun text ↦
        some (.string text))) ∧
    ∃ written, read? written = some d := by
  refine ⟨⟨?_, ?_⟩, ⟨?_, ?_⟩, ⟨?_, ?_⟩, ?_, d.write, d.read?_write⟩
  · rintro ⟨name, hparse⟩
    exact KnowledgeBaseId.usable_of_parse hparse
  · exact fun h ↦ ⟨id.name, h.parse_name⟩
  · rintro ⟨candidates, hresolve⟩
    obtain ⟨name, -, hparse⟩ := KnowledgeBaseId.exists_parse_of_resolve hresolve
    exact KnowledgeBaseId.usable_of_parse hparse
  · exact fun h ↦ ⟨[some id.name], h.resolve_name⟩
  · rintro ⟨id, knowledgeBase, title, content, hmake⟩
    obtain ⟨hvisible, rfl⟩ := make_eq_ok_iff.mp hmake
    exact hvisible
  · exact fun h ↦
      ⟨d.id, d.knowledgeBase, d.title, d.content, make_eq_ok_iff.mpr ⟨h, rfl⟩⟩
  · simp only [read?, Option.bind_eq_some_iff, ofJson?_eq_some_iff]

/-- A document without content, for a knowledge base without a name. -/
theorem read?_blank :
    ∃ d,
      read? "\x7b\"id\":\"m1\",\"knowledge_base_id\":\" \",\"title\":\"\",\"content\":\"\"\x7d" =
        some d ∧
      ¬ d.knowledgeBase.Usable ∧ Text.isBlank d.content = true := by
  refine ⟨⟨"m1", ⟨" "⟩, "", ""⟩, by rfl, ?_, by decide⟩
  rintro ⟨hvisible, -⟩
  exact absurd hvisible (by decide)

end Document

end AgentConsole
