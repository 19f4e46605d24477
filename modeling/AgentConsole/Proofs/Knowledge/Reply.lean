import AgentConsole.Callback.Codec
import AgentConsole.Knowledge.Conversation
import Mathlib.Data.List.Induction

/-!
# What is remembered of a reply

The blocks of a reply are gone through once, and what a block says replaces what those before it
have said.  What is left in the end can be named without going through them: the reasoning of the
last block that has one, and the text of the last block that has a text but no reasoning
(`Conversation.foldl_takeBlock`).  An empty one of the two counts for nothing, but it is the last
one all the same.

So the content of a conversation hangs on at most two blocks, as long as one of them is a text with
something in it.  Without such a text the reply is kept as a whole.

* `Conversation.contentOf_of_reasoning`, `Conversation.contentOf_of_text`,
  `Conversation.contentOf_of_silence` : the forms of the content, by what the last blocks say.
* `Conversation.compose_reply` : content and title.
-/

namespace AgentConsole

/-- The text of a block that has no reasoning text. -/
def Block.plainText (b : Block) : Option String :=
  match b.reasoningText with
  | some _ => none
  | none => b.text

/-- The printed message is an object, and so it is not empty. -/
theorem Message.write_ne_empty (m : Message) : m.write ≠ "" := by
  intro h
  have hchars := congrArg String.toList h
  rw [write, Json.text, String.toList_ofList, toJson, Json.chars] at hchars
  cases hchars

namespace Conversation

/-! ## The last blocks -/

/-- The reasoning text of the last block that has one. -/
def lastReasoning (blocks : List Block) : Option String :=
  (blocks.filterMap Block.reasoningText).getLast?

/-- The text of the last block that has one but no reasoning text. -/
def lastText (blocks : List Block) : Option String :=
  (blocks.filterMap Block.plainText).getLast?

theorem getLast?_filterMap_concat {α β : Type} (f : α → Option β) (l : List α) (a : α) :
    ((l ++ [a]).filterMap f).getLast? = (f a).or (l.filterMap f).getLast? := by
  rw [List.filterMap_append, List.getLast?_append]
  cases h : f a <;> simp [h]

/-- A further block replaces what has been said. -/
theorem takeBlock_eq (soFar : Option String × Option String) (b : Block) :
    takeBlock soFar b = (b.reasoningText.or soFar.1, b.plainText.or soFar.2) := by
  unfold takeBlock Block.plainText
  cases b.reasoningText with
  | some reasoning => rfl
  | none => cases b.text <;> rfl

/-- What the last blocks say is left. -/
theorem foldl_takeBlock (blocks : List Block) :
    blocks.foldl takeBlock (none, none) = (lastReasoning blocks, lastText blocks) := by
  induction blocks using List.reverseRecOn with
  | nil => rfl
  | append_singleton blocks b ih =>
    rw [List.foldl_append, ih, List.foldl_cons, List.foldl_nil, takeBlock_eq, lastReasoning,
      lastReasoning, lastText, lastText, getLast?_filterMap_concat, getLast?_filterMap_concat]

theorem parts_eq (blocks : List Block) :
    parts blocks = ((lastReasoning blocks).filter (· ≠ ""),
      (lastText blocks).filter (· ≠ "")) := by
  rw [parts, foldl_takeBlock]

theorem filter_eq_none {o : Option String} (h : ∀ t ∈ o, t = "") :
    o.filter (· ≠ "") = none := by
  rw [Option.filter_eq_none_iff]
  intro t ht
  simp [h t ht]

/-! ## Contents -/

section

variable (user : String) {m : Message} {r t : String}

theorem contentOf_of_reasoning (hr : lastReasoning m.content = some r) (hne : r ≠ "")
    (ht : lastText m.content = some t) (hnet : t ≠ "") :
    contentOf user m =
      "User: " ++ user ++ "\n\nAssistant Reasoning: " ++ r ++ "\n\nAssistant Response: " ++ t := by
  have hparts : parts m.content = (some r, some t) := by
    rw [parts_eq, hr, ht, Option.filter_some_pos (by simpa using hne),
      Option.filter_some_pos (by simpa using hnet)]
  rw [contentOf, hparts]
  apply String.toList_injective
  simp

theorem contentOf_of_text (hr : ∀ r ∈ lastReasoning m.content, r = "")
    (ht : lastText m.content = some t) (hnet : t ≠ "") :
    contentOf user m = "User: " ++ user ++ "\n\nAssistant: " ++ t := by
  have hparts : parts m.content = (none, some t) := by
    rw [parts_eq, filter_eq_none hr, ht, Option.filter_some_pos (by simpa using hnet)]
  rw [contentOf, hparts]
  apply String.toList_injective
  simp

/-- Without a text the reply is printed, if it has any blocks. -/
theorem contentOf_of_silence (ht : ∀ t ∈ lastText m.content, t = "") :
    contentOf user m =
      "User: " ++ user ++ "\n\nAssistant: " ++ if m.content = [] then "" else m.write := by
  have hparts : parts m.content = ((lastReasoning m.content).filter (· ≠ ""), none) := by
    rw [parts_eq, filter_eq_none ht]
  rw [contentOf, hparts]
  apply String.toList_injective
  simp [Message.write]

end

/-- Other blocks do not show in the content, as long as there is a text with something in it. -/
theorem contentOf_congr (user : String) {m m' : Message} {t : String}
    (hr : lastReasoning m'.content = lastReasoning m.content) (ht : lastText m.content = some t)
    (ht' : lastText m'.content = some t) (hne : t ≠ "") :
    contentOf user m' = contentOf user m := by
  by_cases h : ∀ r ∈ lastReasoning m.content, r = ""
  · rw [contentOf_of_text user h ht hne, contentOf_of_text user (hr ▸ h) ht' hne]
  · push Not at h
    obtain ⟨r, hmem, hner⟩ := h
    rw [contentOf_of_reasoning user hmem hner ht hne,
      contentOf_of_reasoning user (hr.trans hmem) hner ht' hne]

/-! ## Titles -/

theorem titleOf_of_size_le {user : String} (h : Text.size user ≤ titleLimit) :
    titleOf user = "Conversation: " ++ user := by
  rw [titleOf, Text.excerpt_of_size_le h]
  exact String.append_empty

theorem titleOf_of_lt_size {user : String} (h : titleLimit < Text.size user) :
    ∃ start rest, user = start ++ rest ∧ Text.size start = titleLimit ∧
      titleOf user = "Conversation: " ++ start ++ "..." := by
  refine ⟨(Text.excerpt user titleLimit).1,
    String.ofList (user.toList.drop titleLimit), ?_, ?_, ?_⟩
  · apply String.toList_injective
    simp [Text.excerpt]
  · rw [Text.size_excerpt]
    omega
  · have hcut : (Text.excerpt user titleLimit).2 = true := by simpa [Text.excerpt] using h
    unfold titleOf
    dsimp only
    rw [if_pos hcut]

/-! ## Conversations -/

/-- What is remembered of a reply.  If the last block with a text of its own, that is one without a
reasoning text, has something in it, then the content is made of this text and of the last
reasoning, if there is something in that, and whatever other blocks there are does not show.  If
not, then the content ends behind the name of the assistant where the reply has no blocks, and holds
the printed message where it has some.  The title has all that the user has said, or the first fifty
characters of it with three dots where there are more. -/
theorem compose_reply (user : String) (m : Message) :
    let c := compose user (some m)
    (∀ t, lastText m.content = some t → t ≠ "" →
      (∀ r, lastReasoning m.content = some r → r ≠ "" → c.content =
        "User: " ++ user ++ "\n\nAssistant Reasoning: " ++ r ++ "\n\nAssistant Response: " ++ t) ∧
      ((∀ r, lastReasoning m.content = some r → r = "") →
        c.content = "User: " ++ user ++ "\n\nAssistant: " ++ t) ∧
      ∀ m', lastReasoning m'.content = lastReasoning m.content →
        lastText m'.content = some t →
        (compose user (some m')).content = c.content) ∧
    ((∀ t, lastText m.content = some t → t = "") →
      (c.content = "User: " ++ user ++ "\n\nAssistant: " ↔ m.content = []) ∧
      (m.content ≠ [] → c.content = "User: " ++ user ++ "\n\nAssistant: " ++ m.write)) ∧
    (Text.size user ≤ 50 → c.title = "Conversation: " ++ user) ∧
    (50 < Text.size user → ∃ start rest, user = start ++ rest ∧ Text.size start = 50 ∧
      c.title = "Conversation: " ++ start ++ "...") := by
  intro c
  refine ⟨fun t ht hne ↦ ⟨fun r hr hner ↦ ?_, fun hr ↦ ?_, fun m' hr ht' ↦ ?_⟩,
    fun ht ↦ ?_, titleOf_of_size_le, titleOf_of_lt_size⟩
  · exact contentOf_of_reasoning user hr hner ht hne
  · exact contentOf_of_text user hr ht hne
  · exact contentOf_congr user hr ht ht' hne
  · have hcontent : c.content = _ := contentOf_of_silence user ht
    by_cases hempty : m.content = []
    · simp [hcontent, hempty]
    · simp [hcontent, hempty, m.write_ne_empty]

/-- A block with both kinds of text counts as reasoning, and an empty one hides what has been
said. -/
theorem compose_reply_of_mixed_blocks :
    let both : Block := { Block.ofReasoning "hm" with text := some "hidden" }
    let m : Message :=
      ⟨.assistant, [.ofReasoning "no", both, .ofText "Because.", .ofCall "t1" "shell"]⟩
    let silent : Message := ⟨.assistant, [.ofText "Because.", .ofText "", both]⟩
    (compose "Why?" (some m)).content =
        "User: Why?\n\nAssistant Reasoning: hm\n\nAssistant Response: Because." ∧
      (compose "Why?" (some silent)).content = "User: Why?\n\nAssistant: " ++ silent.write := by
  intro both m silent
  have hspoken := ((compose_reply "Why?" m).1 "Because." rfl (by decide)).1 "hm" rfl (by decide)
  have hsilent := ((compose_reply "Why?" silent).2.1 (by rintro t ⟨⟩; rfl)).2 (by simp [silent])
  exact ⟨hspoken, hsilent⟩

end Conversation

end AgentConsole
