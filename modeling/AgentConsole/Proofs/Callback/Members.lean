import AgentConsole.Proofs.Callback.Isolation
import AgentConsole.Proofs.Json.Object

/-!
# The members of a callback

A callback comes from elsewhere as a loose bag of keys.  What it is depends on the values of its
fields and on nothing else, so it may have its members in any order and any others among them,
whatever their values are.  One field has two spellings, and they count as one key: the callback is
the same with either, and an error with both, as it is with any known key that is given twice.

* `Callback.read?_of_isObject` : texts of callbacks that differ in their members.
-/

namespace AgentConsole

open Json (IsObject IsMember ofMembers)

namespace Callback

/-- A callback depends on the values of its fields only. -/
theorem ofJson?_congr {room : Nat} {j j' : Json} (h : j.slots? fields = j'.slots? fields) :
    ofJson? room j = ofJson? room j' := by
  rw [ofJson?, ofJson?, h]

theorem read?_congr {s s' : String} {members members' : List (Option String × Json)}
    (hs : IsObject members s) (hs' : IsObject members' s')
    (h : (ofMembers members).slots? fields = (ofMembers members').slots? fields) :
    read? s = read? s' := by
  rw [read?, read?, hs, hs', Option.bind_some, Option.bind_some, ofJson?_congr h]

/-- Members do not matter beyond the fields that they give.  The text of an object is read as the
same callback, or is an error, as any text that has the same members in another order, and possibly
further ones with unknown keys; and as any text with the other spelling of the reasoning key.  If a
field is given twice, with the same spelling or with two, the text is an error.

The texts of keys and values, with blanks and escapes as they may be, make the text of an object. -/
theorem read?_of_isObject {members : List (Option String × Json)} {s : String}
    (h : IsObject members s) :
    (∀ unknown others s',
      (∀ m ∈ unknown, ∃ key, m.1 = some key ∧ key ∉ fields.flatten) →
      others.Perm (unknown ++ members) → IsObject others s' → read? s' = read? s) ∧
    (∀ before v after s', members = before ++ (some "reasoningText", v) :: after →
      IsObject (before ++ (some "reasoning_text", v) :: after) s' → read? s' = read? s) ∧
    (∀ spellings ∈ fields, ∀ key ∈ spellings, ∀ key' ∈ spellings, ∀ v v',
      [(some key, v), (some key', v')].Sublist members → read? s = none) ∧
    ∀ parts members', List.Forall₂ IsMember parts members' →
      IsObject members' (Json.objectText parts) := by
  refine ⟨fun unknown others s' hunknown hperm hs' ↦ ?_, ?_, ?_,
    fun _ _ ↦ Json.isObject_objectText⟩
  · exact read?_congr hs' h (Json.slots?_ofMembers_perm hunknown hperm)
  · rintro before v after s' rfl hs'
    exact read?_congr hs' h (Json.slots?_ofMembers_respell (by decide) v before after)
  · intro spellings hfield key hkey key' hkey' v v' htwice
    have hnone := Json.slots?_ofMembers_repeated hfield hkey hkey' htwice
    rw [read?, h, Option.bind_some, ofJson?, hnone]
    rfl

theorem isObject_reasoning_data :
    IsObject [(some "reasoningText", .string "Hm"), (some "data", .string "Hi")]
    "\x7b\"reasoningText\":\"Hm\",\"data\":\"Hi\"\x7d" := rfl

theorem isObject_reasoning_twice : IsObject
    [(some "reasoning_text", .string "Hm"), (some "data", .string "Hi"),
      (some "reasoningText", .null)]
    "\x7b\"reasoning_text\":\"Hm\",\"data\":\"Hi\",\"reasoningText\":null\x7d" := rfl

/-- The members turned around, with an escape in a key and a further member between them whose value
is a number out of range; the other spelling; and both spellings, one of them without a value. -/
theorem read?_of_reasoning_data :
    IsObject [(some "reasoningText", .string "Hm"), (some "data", .string "Hi")]
      "\x7b\"reasoningText\":\"Hm\",\"data\":\"Hi\"\x7d" ∧
    read? "\x7b \"\\u0064ata\":\"Hi\", \"rest\":[1e400], \"reasoningText\":\"Hm\"\x7d" =
      read? "\x7b\"reasoningText\":\"Hm\",\"data\":\"Hi\"\x7d" ∧
    read? "\x7b\"reasoning_text\":\"Hm\",\"data\":\"Hi\"\x7d" =
      read? "\x7b\"reasoningText\":\"Hm\",\"data\":\"Hi\"\x7d" ∧
    read? "\x7b\"reasoning_text\":\"Hm\",\"data\":\"Hi\",\"reasoningText\":null\x7d" = none := by
  obtain ⟨hperm, hrespell, -, -⟩ := read?_of_isObject isObject_reasoning_data
  obtain ⟨-, -, hrepeated, -⟩ := read?_of_isObject isObject_reasoning_twice
  refine ⟨isObject_reasoning_data, ?_, ?_, ?_⟩
  · refine hperm [(some "rest", .array [.void])] [(some "data", .string "Hi"),
      (some "rest", .array [.void]), (some "reasoningText", .string "Hm")] _ ?_ ?_ rfl
    · simp [fields]
    · exact (List.reverse_perm _).symm.trans (List.Perm.swap _ _ _)
  · exact hrespell [] (.string "Hm") [(some "data", .string "Hi")] _ rfl rfl
  · exact hrepeated ["reasoningText", "reasoning_text"] (by decide) "reasoning_text" (by decide)
      "reasoningText"
      (by decide) (.string "Hm") .null (.cons_cons _ (.cons _ (.cons_cons _ .slnil)))

end Callback

end AgentConsole
