import AgentConsole.Chat.Codec
import AgentConsole.Proofs.Json.Shape

/-!
# What counts as a message

The reader of a message goes down through blocks, calls and results.  Whether it comes back with a
message is decided by the shapes of these records alone: by the keys, by which of them may be
missing, and by the kinds of their values.  The names of roles and statuses do not matter, nor do
the values that are kept as they are, as long as these are sound.

For each kind of record there is a lemma that says what its reader has found when it succeeds, and
one that its reader succeeds on just the values of its shape.

* `Message.exists_ofJson?_iff` : what is read as a message.
* `Message.lasting_hasShape` : a change that keeps the form of a value does not change whether it is
  read as a message.
-/

namespace AgentConsole

open Json (Field IsRecord IsText IsName IsList KeepsForm Lasting)

variable {change : Json → Json} {among : Json → Prop}

/-! ## Reasoning -/

namespace ReasoningText

variable {j : Json}

/-- The shape of a reasoning text. -/
def HasShape : Json → Prop :=
  IsRecord [.text "text"]

theorem ofJson?_eq_some_iff {t : ReasoningText} :
    ofJson? j = some t ↔ ∃ text, j.slots? fields = some [text] ∧
      Json.optional Json.asString text = some t.text := by
  unfold ofJson?
  constructor
  · intro h
    obtain ⟨slots, hslots, h⟩ := Option.bind_eq_some_iff.mp h
    split at h
    · obtain ⟨_, htext, h⟩ := Option.bind_eq_some_iff.mp h
      cases h
      exact ⟨_, hslots, htext⟩
    · cases h
  · rintro ⟨text, hslots, htext⟩
    simp [hslots, htext]

theorem exists_ofJson?_iff : (∃ t, ofJson? j = some t) ↔ HasShape j := by
  rw [HasShape, Json.isRecord_iff]
  constructor
  · rintro ⟨t, ht⟩
    obtain ⟨text, hslots, htext⟩ := ofJson?_eq_some_iff.mp ht
    exact ⟨_, hslots, .cons (Json.exists_text_iff.mp ⟨_, htext⟩) .nil⟩
  · intro ⟨_, hslots, .cons htext .nil⟩
    obtain ⟨text, htext⟩ := Json.exists_text_iff.mpr htext
    exact ⟨⟨text⟩, ofJson?_eq_some_iff.mpr ⟨_, hslots, htext⟩⟩

theorem lasting_hasShape (h : KeepsForm change among) : Lasting change among HasShape :=
  Json.lasting_isRecord h (List.forall_mem_singleton.mpr (Json.lasting_isText h))

end ReasoningText

namespace Reasoning

variable {j : Json}

/-- The shape of a block's reasoning. -/
def HasShape : Json → Prop :=
  IsRecord [⟨"reasoningText", .optional, ReasoningText.HasShape⟩]

theorem ofJson?_eq_some_iff {r : Reasoning} :
    ofJson? j = some r ↔ ∃ content, j.slots? fields = some [content] ∧
      Json.optional ReasoningText.ofJson? content = some r.content := by
  unfold ofJson?
  constructor
  · intro h
    obtain ⟨slots, hslots, h⟩ := Option.bind_eq_some_iff.mp h
    split at h
    · obtain ⟨_, hcontent, h⟩ := Option.bind_eq_some_iff.mp h
      cases h
      exact ⟨_, hslots, hcontent⟩
    · cases h
  · rintro ⟨content, hslots, hcontent⟩
    simp [hslots, hcontent]

theorem exists_ofJson?_iff : (∃ r, ofJson? j = some r) ↔ HasShape j := by
  rw [HasShape, Json.isRecord_iff]
  constructor
  · rintro ⟨r, hr⟩
    obtain ⟨content, hslots, hcontent⟩ := ofJson?_eq_some_iff.mp hr
    refine ⟨_, hslots, .cons ?_ .nil⟩
    exact (Json.exists_optional_iff rfl fun _ _ ↦ ReasoningText.exists_ofJson?_iff).mp
      ⟨_, hcontent⟩
  · intro ⟨_, hslots, .cons hcontent .nil⟩
    obtain ⟨content, hcontent⟩ :=
      (Json.exists_optional_iff rfl fun _ _ ↦ ReasoningText.exists_ofJson?_iff).mpr hcontent
    exact ⟨⟨content⟩, ofJson?_eq_some_iff.mpr ⟨_, hslots, hcontent⟩⟩

theorem lasting_hasShape (h : KeepsForm change among) : Lasting change among HasShape :=
  Json.lasting_isRecord h (List.forall_mem_singleton.mpr (ReasoningText.lasting_hasShape h))

end Reasoning

/-! ## Calls and results -/

theorem Role.exists_ofJson?_iff {j : Json} : (∃ r, Role.ofJson? j = some r) ↔ IsName j := by
  rw [← Json.exists_asVariant_iff]
  simp [Role.ofJson?]

theorem ToolStatus.exists_ofJson?_iff {j : Json} :
    (∃ s, ToolStatus.ofJson? j = some s) ↔ IsName j := by
  rw [← Json.exists_asVariant_iff]
  simp [ToolStatus.ofJson?]

namespace ToolCall

variable {room : Nat} {j : Json}

/-- The shape of a call.  Its input is any value. -/
def HasShape : Json → Prop :=
  IsRecord [.text "toolUseId", .text "name", ⟨"input", .defaulted, fun _ ↦ True⟩]

theorem ofJson?_eq_some_iff {c : ToolCall} :
    ofJson? room j = some c ↔ ∃ id name input, j.slots? fields = some [id, name, input] ∧
      Json.optional Json.asString id = some c.id ∧
      Json.optional Json.asString name = some c.name ∧
      Json.defaulted .null (Json.asValue (room - 1)) input = some c.input := by
  unfold ofJson?
  constructor
  · intro h
    obtain ⟨slots, hslots, h⟩ := Option.bind_eq_some_iff.mp h
    split at h
    · obtain ⟨_, hid, h⟩ := Option.bind_eq_some_iff.mp h
      obtain ⟨_, hname, h⟩ := Option.bind_eq_some_iff.mp h
      obtain ⟨_, hinput, h⟩ := Option.bind_eq_some_iff.mp h
      cases h
      exact ⟨_, _, _, hslots, hid, hname, hinput⟩
    · cases h
  · rintro ⟨id, name, input, hslots, hid, hname, hinput⟩
    simp [hslots, hid, hname, hinput]

theorem exists_ofJson?_iff (hj : j.sound room = true) :
    (∃ c, ofJson? room j = some c) ↔ HasShape j := by
  rw [HasShape, Json.isRecord_iff]
  constructor
  · rintro ⟨c, hc⟩
    obtain ⟨id, name, input, hslots, hid, hname, hinput⟩ := ofJson?_eq_some_iff.mp hc
    have hsound := Json.sound_of_slots? hslots hj input (by simp)
    refine ⟨_, hslots,
      .cons (Json.exists_text_iff.mp ⟨_, hid⟩)
        (.cons (Json.exists_text_iff.mp ⟨_, hname⟩) (.cons ?_ .nil))⟩
    exact (Json.exists_defaulted_iff rfl fun v hv ↦ Json.exists_asValue_iff (hsound v hv)).mp
      ⟨_, hinput⟩
  · intro ⟨[_, _, input], hslots, .cons hid (.cons hname (.cons hinput .nil))⟩
    have hsound := Json.sound_of_slots? hslots hj input (by simp)
    obtain ⟨id, hid⟩ := Json.exists_text_iff.mpr hid
    obtain ⟨name, hname⟩ := Json.exists_text_iff.mpr hname
    obtain ⟨input, hinput⟩ :=
      (Json.exists_defaulted_iff rfl fun v hv ↦ Json.exists_asValue_iff (hsound v hv)).mpr hinput
    exact ⟨⟨id, name, input⟩,
      ofJson?_eq_some_iff.mpr ⟨_, _, _, hslots, hid, hname, hinput⟩⟩

theorem lasting_hasShape (h : KeepsForm change among) : Lasting change among HasShape := by
  refine Json.lasting_isRecord h ?_
  simpa using ⟨Json.lasting_isText h, Json.lasting_isText h, Json.lasting_true⟩

end ToolCall

namespace ToolResult

variable {room : Nat} {j : Json}

/-- The shape of a result.  Its content is any list of values. -/
def HasShape : Json → Prop :=
  IsRecord [.text "toolUseId", ⟨"status", .optional, IsName⟩,
    ⟨"content", .defaulted, IsList fun _ ↦ True⟩]

theorem ofJson?_eq_some_iff {r : ToolResult} :
    ofJson? room j = some r ↔
      ∃ id status content, j.slots? fields = some [id, status, content] ∧
      Json.optional Json.asString id = some r.id ∧
      Json.optional ToolStatus.ofJson? status = some r.status ∧
      Json.defaulted [] (Json.asList (Json.asValue (room - 2))) content = some r.content := by
  unfold ofJson?
  constructor
  · intro h
    obtain ⟨slots, hslots, h⟩ := Option.bind_eq_some_iff.mp h
    split at h
    · obtain ⟨_, hid, h⟩ := Option.bind_eq_some_iff.mp h
      obtain ⟨_, hstatus, h⟩ := Option.bind_eq_some_iff.mp h
      obtain ⟨_, hcontent, h⟩ := Option.bind_eq_some_iff.mp h
      cases h
      exact ⟨_, _, _, hslots, hid, hstatus, hcontent⟩
    · cases h
  · rintro ⟨id, status, content, hslots, hid, hstatus, hcontent⟩
    simp [hslots, hid, hstatus, hcontent]

theorem exists_ofJson?_iff (hj : j.sound room = true) :
    (∃ r, ofJson? room j = some r) ↔ HasShape j := by
  rw [HasShape, Json.isRecord_iff]
  have hlist : ∀ v, v.sound (room - 1) = true →
      ((∃ l, Json.asList (Json.asValue (room - 2)) v = some l) ↔ IsList (fun _ ↦ True) v) :=
    fun v hv ↦ Json.exists_asList_iff fun i hi ↦ Json.exists_asValue_iff (hi.sound hv)
  constructor
  · rintro ⟨r, hr⟩
    obtain ⟨id, status, content, hslots, hid, hstatus, hcontent⟩ := ofJson?_eq_some_iff.mp hr
    have hsound := Json.sound_of_slots? hslots hj content (by simp)
    refine ⟨_, hslots, .cons (Json.exists_text_iff.mp ⟨_, hid⟩) (.cons ?_ (.cons ?_ .nil))⟩
    · exact (Json.exists_optional_iff rfl fun _ _ ↦ ToolStatus.exists_ofJson?_iff).mp
        ⟨_, hstatus⟩
    · exact (Json.exists_defaulted_iff rfl fun v hv ↦ hlist v (hsound v hv)).mp ⟨_, hcontent⟩
  · intro ⟨[_, _, content], hslots, .cons hid (.cons hstatus (.cons hcontent .nil))⟩
    have hsound := Json.sound_of_slots? hslots hj content (by simp)
    obtain ⟨id, hid⟩ := Json.exists_text_iff.mpr hid
    obtain ⟨status, hstatus⟩ :=
      (Json.exists_optional_iff rfl fun _ _ ↦ ToolStatus.exists_ofJson?_iff).mpr hstatus
    obtain ⟨content, hcontent⟩ :=
      (Json.exists_defaulted_iff rfl fun v hv ↦ hlist v (hsound v hv)).mpr hcontent
    exact ⟨⟨id, status, content⟩,
      ofJson?_eq_some_iff.mpr ⟨_, _, _, hslots, hid, hstatus, hcontent⟩⟩

theorem lasting_hasShape (h : KeepsForm change among) : Lasting change among HasShape := by
  refine Json.lasting_isRecord h ?_
  simpa using ⟨Json.lasting_isText h, Json.lasting_isName h,
    Json.lasting_isList h Json.lasting_true⟩

end ToolResult

/-! ## Blocks and messages -/

namespace Block

variable {room : Nat} {j : Json}

/-- The shape of a block. -/
def HasShape : Json → Prop :=
  IsRecord [.text "text", ⟨"reasoningContent", .optional, Reasoning.HasShape⟩,
    ⟨"toolUse", .optional, ToolCall.HasShape⟩,
      ⟨"toolResult", .optional, ToolResult.HasShape⟩]

theorem ofJson?_eq_some_iff {b : Block} :
    ofJson? room j = some b ↔ ∃ text reasoning call result,
      j.slots? fields = some [text, reasoning, call, result] ∧
      Json.optional Json.asString text = some b.text ∧
      Json.optional Reasoning.ofJson? reasoning = some b.reasoning ∧
      Json.optional (ToolCall.ofJson? (room - 1)) call = some b.call ∧
      Json.optional (ToolResult.ofJson? (room - 1)) result = some b.result := by
  unfold ofJson?
  constructor
  · intro h
    obtain ⟨slots, hslots, h⟩ := Option.bind_eq_some_iff.mp h
    split at h
    · obtain ⟨_, htext, h⟩ := Option.bind_eq_some_iff.mp h
      obtain ⟨_, hreasoning, h⟩ := Option.bind_eq_some_iff.mp h
      obtain ⟨_, hcall, h⟩ := Option.bind_eq_some_iff.mp h
      obtain ⟨_, hresult, h⟩ := Option.bind_eq_some_iff.mp h
      cases h
      exact ⟨_, _, _, _, hslots, htext, hreasoning, hcall, hresult⟩
    · cases h
  · rintro ⟨text, reasoning, call, result, hslots, htext, hreasoning, hcall, hresult⟩
    simp [hslots, htext, hreasoning, hcall, hresult]

theorem exists_ofJson?_iff (hj : j.sound room = true) :
    (∃ b, ofJson? room j = some b) ↔ HasShape j := by
  rw [HasShape, Json.isRecord_iff]
  constructor
  · rintro ⟨b, hb⟩
    obtain ⟨text, reasoning, call, result, hslots, htext, hreasoning, hcall, hresult⟩ :=
      ofJson?_eq_some_iff.mp hb
    have hcallSound := Json.sound_of_slots? hslots hj call (by simp)
    have hresultSound := Json.sound_of_slots? hslots hj result (by simp)
    refine ⟨_, hslots,
      .cons (Json.exists_text_iff.mp ⟨_, htext⟩) (.cons ?_ (.cons ?_ (.cons ?_ .nil)))⟩
    · exact (Json.exists_optional_iff rfl fun _ _ ↦ Reasoning.exists_ofJson?_iff).mp
        ⟨_, hreasoning⟩
    · exact (Json.exists_optional_iff rfl fun v hv ↦
        ToolCall.exists_ofJson?_iff (hcallSound v hv)).mp
        ⟨_, hcall⟩
    · exact (Json.exists_optional_iff rfl fun v hv ↦
        ToolResult.exists_ofJson?_iff (hresultSound v hv)).mp
        ⟨_, hresult⟩
  · intro ⟨[_, _, call, result], hslots,
      .cons htext (.cons hreasoning (.cons hcall (.cons hresult .nil)))⟩
    have hcallSound := Json.sound_of_slots? hslots hj call (by simp)
    have hresultSound := Json.sound_of_slots? hslots hj result (by simp)
    obtain ⟨text, htext⟩ := Json.exists_text_iff.mpr htext
    obtain ⟨reasoning, hreasoning⟩ :=
      (Json.exists_optional_iff rfl fun _ _ ↦ Reasoning.exists_ofJson?_iff).mpr hreasoning
    obtain ⟨call, hcall⟩ :=
      (Json.exists_optional_iff rfl fun v hv ↦ ToolCall.exists_ofJson?_iff (hcallSound v hv)).mpr
        hcall
    obtain ⟨result, hresult⟩ :=
      (Json.exists_optional_iff rfl fun v hv ↦
        ToolResult.exists_ofJson?_iff (hresultSound v hv)).mpr hresult
    exact ⟨⟨text, reasoning, call, result⟩,
      ofJson?_eq_some_iff.mpr ⟨_, _, _, _, hslots, htext, hreasoning, hcall, hresult⟩⟩

theorem lasting_hasShape (h : KeepsForm change among) : Lasting change among HasShape := by
  refine Json.lasting_isRecord h ?_
  simpa using ⟨Json.lasting_isText h, Reasoning.lasting_hasShape h, ToolCall.lasting_hasShape h,
    ToolResult.lasting_hasShape h⟩

end Block

namespace Message

variable {room : Nat} {j : Json}

/-- The shape of a message. -/
def HasShape : Json → Prop :=
  IsRecord [⟨"role", .required, IsName⟩, ⟨"content", .defaulted, IsList Block.HasShape⟩]

theorem ofJson?_eq_some_iff {m : Message} :
    ofJson? room j = some m ↔ ∃ role content, j.slots? fields = some [role, content] ∧
      Json.required Role.ofJson? role = some m.role ∧
      Json.defaulted [] (Json.asList (Block.ofJson? (room - 2))) content = some m.content := by
  unfold ofJson?
  constructor
  · intro h
    obtain ⟨slots, hslots, h⟩ := Option.bind_eq_some_iff.mp h
    split at h
    · obtain ⟨_, hrole, h⟩ := Option.bind_eq_some_iff.mp h
      obtain ⟨_, hcontent, h⟩ := Option.bind_eq_some_iff.mp h
      cases h
      exact ⟨_, _, hslots, hrole, hcontent⟩
    · cases h
  · rintro ⟨role, content, hslots, hrole, hcontent⟩
    simp [hslots, hrole, hcontent]

/-- A sound value is read as a message if it has the shape of one. -/
theorem exists_ofJson?_iff (hj : j.sound room = true) :
    (∃ m, ofJson? room j = some m) ↔ HasShape j := by
  rw [HasShape, Json.isRecord_iff]
  have hlist : ∀ v, v.sound (room - 1) = true →
      ((∃ l, Json.asList (Block.ofJson? (room - 2)) v = some l) ↔ IsList Block.HasShape v) :=
    fun v hv ↦ Json.exists_asList_iff fun i hi ↦ Block.exists_ofJson?_iff (hi.sound hv)
  constructor
  · rintro ⟨m, hm⟩
    obtain ⟨role, content, hslots, hrole, hcontent⟩ := ofJson?_eq_some_iff.mp hm
    have hsound := Json.sound_of_slots? hslots hj content (by simp)
    refine ⟨_, hslots, .cons ?_ (.cons ?_ .nil)⟩
    · exact (Json.exists_required_iff rfl fun _ _ ↦ Role.exists_ofJson?_iff).mp ⟨_, hrole⟩
    · exact (Json.exists_defaulted_iff rfl fun v hv ↦ hlist v (hsound v hv)).mp ⟨_, hcontent⟩
  · intro ⟨[_, content], hslots, .cons hrole (.cons hcontent .nil)⟩
    have hsound := Json.sound_of_slots? hslots hj content (by simp)
    obtain ⟨role, hrole⟩ :=
      (Json.exists_required_iff rfl fun _ _ ↦ Role.exists_ofJson?_iff).mpr hrole
    obtain ⟨content, hcontent⟩ :=
      (Json.exists_defaulted_iff rfl fun v hv ↦ hlist v (hsound v hv)).mpr hcontent
    exact ⟨⟨role, content⟩, ofJson?_eq_some_iff.mpr ⟨_, _, hslots, hrole, hcontent⟩⟩

/-- A change that keeps the form of a value does not make a message of it, nor stop it from being
one. -/
theorem lasting_hasShape (h : KeepsForm change among) : Lasting change among HasShape := by
  refine Json.lasting_isRecord h ?_
  simpa using ⟨Json.lasting_isName h, Json.lasting_isList h (Block.lasting_hasShape h)⟩

end Message

end AgentConsole
