import AgentConsole.Proofs.Chat.Shape
import AgentConsole.Proofs.Json.Rewriting

/-!
# Messages that are read, written and read again

A message is written as the record that it is read from, so reading it back is a matter of its
fields.  Two of them need care.  The input of a call and the content of a result are kept as they
are, and come back only if they are sorted by key, which all values that have been read are.  And
the content of a message is written even when it was missing, which takes a little room.

* `Message.faithful` : a message is read from what is written for it, and from nothing that this is
  read as.
* `Message.rewrites`, `Message.ordered_of_ofJson?` : what is written for a message that has been
  read.
-/

namespace AgentConsole

open Json (Faithful Rewrites RewritesSlot written)

/-! ## Reasoning -/

namespace ReasoningText

theorem toJson_eq (t : ReasoningText) :
    t.toJson = .object (written [("text", t.text.map .string)]) := by
  simp [toJson]

theorem faithful (t : ReasoningText) : Faithful Json.reread? ofJson? t t.toJson := by
  have htext := Json.faithful_text t.text
  rw [toJson_eq]
  refine ⟨ofJson?_eq_some_iff.mpr ⟨_, Json.slots?_written rfl (by decide), htext.read_eq⟩,
    fun w hw hread ↦ ?_⟩
  obtain ⟨text, hslots, htext'⟩ := ofJson?_eq_some_iff.mp hread
  refine Json.eq_written_of_reread? rfl (by decide) hw hslots (.cons ?_ .nil)
  exact fun h ↦ htext.eq_of_again _ h htext'

theorem rewrites {room : Nat} {j : Json} {t : ReasoningText} (h : ofJson? j = some t)
    (hj : j.sound room = true) : Rewrites room j t.toJson := by
  obtain ⟨text, hslots, -⟩ := ofJson?_eq_some_iff.mp h
  rw [toJson_eq]
  exact Json.rewrites_written (Json.ne_zero_of_slots? hslots hj) hslots
    (.cons (Json.rewritesSlot_text _ _ _) .nil)

end ReasoningText

namespace Reasoning

theorem toJson_eq (r : Reasoning) :
    r.toJson = .object (written [("reasoningText", r.content.map ReasoningText.toJson)]) := by
  simp [toJson]

theorem faithful (r : Reasoning) : Faithful Json.reread? ofJson? r r.toJson := by
  have hcontent : Faithful Json.rereadSlot? (Json.optional ReasoningText.ofJson?) r.content
      (r.content.map ReasoningText.toJson) :=
    .optional (fun t _ ↦ t.faithful) fun t ↦ by simp [ReasoningText.toJson]
  rw [toJson_eq]
  refine ⟨ofJson?_eq_some_iff.mpr ⟨_, Json.slots?_written rfl (by decide), hcontent.read_eq⟩,
    fun w hw hread ↦ ?_⟩
  obtain ⟨content, hslots, hcontent'⟩ := ofJson?_eq_some_iff.mp hread
  refine Json.eq_written_of_reread? rfl (by decide) hw hslots (.cons ?_ .nil)
  exact fun h ↦ hcontent.eq_of_again _ h hcontent'

theorem rewrites {room : Nat} {j : Json} {r : Reasoning} (h : ofJson? j = some r)
    (hj : j.sound room = true) : Rewrites room j r.toJson := by
  obtain ⟨content, hslots, hcontent⟩ := ofJson?_eq_some_iff.mp h
  have hsound := Json.sound_of_slots? hslots hj content (by simp)
  rw [toJson_eq]
  refine Json.rewrites_written (Json.ne_zero_of_slots? hslots hj) hslots (.cons ?_ .nil)
  exact Json.rewritesSlot_optional hcontent fun j hj t ht ↦
    ReasoningText.rewrites ht (hsound j hj)

end Reasoning

/-! ## Calls and results -/

theorem Role.faithful (r : Role) : Faithful Json.reread? Role.ofJson? r r.toJson := by
  refine Json.faithful_of_again rfl ?_
  simp [Role.ofJson?, Role.toJson, Json.asVariant]

theorem ToolStatus.faithful (s : ToolStatus) :
    Faithful Json.reread? ToolStatus.ofJson? s s.toJson := by
  refine Json.faithful_of_again rfl ?_
  simp [ToolStatus.ofJson?, ToolStatus.toJson, Json.asVariant]

namespace ToolCall

/-- The input is a value by key. -/
def Ordered (c : ToolCall) : Prop :=
  c.input.Ordered

theorem toJson_eq (c : ToolCall) : c.toJson = .object (written [("toolUseId", c.id.map .string),
    ("name", c.name.map .string), ("input", some c.input)]) := by
  simp [toJson, Json.member]

theorem faithful {room : Nat} {c : ToolCall} (hc : c.Ordered)
    (hsound : c.toJson.sound room = true) :
    Faithful Json.reread? (ofJson? room) c c.toJson := by
  rw [toJson_eq] at hsound ⊢
  have hid := Json.faithful_text c.id
  have hname := Json.faithful_text c.name
  have hinput : Faithful Json.rereadSlot? (Json.defaulted .null (Json.asValue (room - 1))) c.input
      (some c.input) := by
    refine Faithful.given (Json.faithful_asValue hc ?_) fun _ ↦ rfl
    exact (Json.sound_written_iff.mp hsound).2 ("input", some c.input) (by simp) _ rfl
  refine ⟨ofJson?_eq_some_iff.mpr ⟨_, _, _, Json.slots?_written rfl (by decide), hid.read_eq,
    hname.read_eq, hinput.read_eq⟩, fun w hw hread ↦ ?_⟩
  obtain ⟨id, name, input, hslots, hid', hname', hinput'⟩ := ofJson?_eq_some_iff.mp hread
  refine Json.eq_written_of_reread? rfl (by decide) hw hslots (.cons ?_ (.cons ?_ (.cons ?_ .nil)))
  · exact fun h ↦ hid.eq_of_again _ h hid'
  · exact fun h ↦ hname.eq_of_again _ h hname'
  · exact fun h ↦ hinput.eq_of_again _ h hinput'

theorem rewrites {room : Nat} {j : Json} {c : ToolCall} (h : ofJson? room j = some c)
    (hj : j.sound room = true) : Rewrites room j c.toJson := by
  obtain ⟨id, name, input, hslots, -, -, hinput⟩ := ofJson?_eq_some_iff.mp h
  rw [toJson_eq]
  refine Json.rewrites_written (Json.ne_zero_of_slots? hslots hj) hslots
    (.cons ?_ (.cons ?_ (.cons ?_ .nil)))
  · exact Json.rewritesSlot_text _ _ _
  · exact Json.rewritesSlot_text _ _ _
  · refine Json.rewritesSlot_defaulted hinput ?_ fun j _ ↦ Json.rewrites_asValue
    intro hnull
    rw [hnull]
    exact ⟨rfl, nofun⟩

theorem ordered_of_ofJson? {room : Nat} {j : Json} {c : ToolCall} (h : ofJson? room j = some c) :
    c.Ordered := by
  obtain ⟨id, name, input, -, -, -, hinput⟩ := ofJson?_eq_some_iff.mp h
  cases input with
  | none =>
    have hnull : Json.null = c.input := Option.some.inj hinput
    rw [Ordered, ← hnull]
    exact .null
  | some v => exact Json.ordered_of_asValue hinput

end ToolCall

namespace ToolResult

/-- The values of the content are values by key. -/
def Ordered (r : ToolResult) : Prop :=
  ∀ v ∈ r.content, v.Ordered

theorem toJson_eq (r : ToolResult) : r.toJson = .object (written [("toolUseId", r.id.map .string),
    ("status", r.status.map ToolStatus.toJson),
    ("content", if r.content.isEmpty then none else some (.array r.content))]) := by
  simp [toJson]

theorem faithful {room : Nat} {r : ToolResult} (hr : r.Ordered)
    (hsound : r.toJson.sound room = true) :
    Faithful Json.reread? (ofJson? room) r r.toJson := by
  rw [toJson_eq] at hsound ⊢
  have hid := Json.faithful_text r.id
  have hstatus : Faithful Json.rereadSlot? (Json.optional ToolStatus.ofJson?) r.status
      (r.status.map ToolStatus.toJson) :=
    .optional (fun s _ ↦ s.faithful) nofun
  have hcontent :
      Faithful Json.rereadSlot? (Json.defaulted [] (Json.asList (Json.asValue (room - 2))))
      r.content (if r.content.isEmpty then none else some (.array r.content)) := by
    split
    · next hempty =>
      rw [List.isEmpty_iff.mp hempty]
      exact Json.faithful_of_again rfl rfl
    · next hne =>
      have harray := (Json.sound_written_iff.mp hsound).2 ("content", some (.array r.content))
        (by simp [hne]) _ rfl
      have hitem : ∀ v ∈ r.content, Faithful Json.reread? (Json.asValue (room - 2)) v v :=
        fun v hv ↦ Json.faithful_asValue (hr v hv) ((Json.sound_array_iff.mp harray).2 v hv)
      have hlist := Faithful.list hitem
      rw [List.map_id'] at hlist
      exact hlist.given fun _ ↦ rfl
  refine ⟨ofJson?_eq_some_iff.mpr ⟨_, _, _, Json.slots?_written rfl (by decide), hid.read_eq,
    hstatus.read_eq, hcontent.read_eq⟩, fun w hw hread ↦ ?_⟩
  obtain ⟨id, status, content, hslots, hid', hstatus', hcontent'⟩ :=
    ofJson?_eq_some_iff.mp hread
  refine Json.eq_written_of_reread? rfl (by decide) hw hslots (.cons ?_ (.cons ?_ (.cons ?_ .nil)))
  · exact fun h ↦ hid.eq_of_again _ h hid'
  · exact fun h ↦ hstatus.eq_of_again _ h hstatus'
  · exact fun h ↦ hcontent.eq_of_again _ h hcontent'

theorem rewrites {room : Nat} {j : Json} {r : ToolResult} (h : ofJson? room j = some r)
    (hj : j.sound room = true) : Rewrites room j r.toJson := by
  obtain ⟨id, status, content, hslots, -, -, hcontent⟩ := ofJson?_eq_some_iff.mp h
  have hsound := Json.sound_of_slots? hslots hj content (by simp)
  rw [toJson_eq]
  refine Json.rewrites_written (Json.ne_zero_of_slots? hslots hj) hslots
    (.cons ?_ (.cons ?_ (.cons ?_ .nil)))
  · exact Json.rewritesSlot_text _ _ _
  · have hname : r.status.map ToolStatus.toJson = (r.status.map ToolStatus.name).map .string := by
      rw [Option.map_map]
      rfl
    rw [hname]
    exact Json.rewritesSlot_text _ _ _
  · split
    · exact nofun
    · next hne =>
      refine Json.rewritesSlot_defaulted hcontent (fun hempty ↦ absurd (by rw [hempty]; rfl) hne)
        ?_
      intro j hj hlist
      rw [← List.map_id r.content]
      exact Json.rewrites_list hlist (hsound j hj) fun i _ v ↦ Json.rewrites_asValue

theorem ordered_of_ofJson? {room : Nat} {j : Json} {r : ToolResult} (h : ofJson? room j = some r) :
    r.Ordered := by
  obtain ⟨id, status, content, -, -, -, hcontent⟩ := ofJson?_eq_some_iff.mp h
  exact Json.forall_of_defaulted_list hcontent fun _ _ ↦ Json.ordered_of_asValue

end ToolResult

/-! ## Blocks and messages -/

namespace Block

/-- The values that call and result hold are values by key. -/
structure Ordered (b : Block) : Prop where
  call : ∀ c ∈ b.call, c.Ordered
  result : ∀ r ∈ b.result, r.Ordered

theorem toJson_eq (b : Block) : b.toJson = .object (written [("text", b.text.map .string),
    ("reasoningContent", b.reasoning.map Reasoning.toJson), ("toolUse", b.call.map ToolCall.toJson),
    ("toolResult", b.result.map ToolResult.toJson)]) := by
  simp [toJson]

theorem faithful {room : Nat} {b : Block} (hb : b.Ordered) (hsound : b.toJson.sound room = true) :
    Faithful Json.reread? (ofJson? room) b b.toJson := by
  rw [toJson_eq] at hsound ⊢
  obtain ⟨-, hsound⟩ := Json.sound_written_iff.mp hsound
  have htext := Json.faithful_text b.text
  have hreasoning : Faithful Json.rereadSlot? (Json.optional Reasoning.ofJson?) b.reasoning
      (b.reasoning.map Reasoning.toJson) :=
    .optional (fun r _ ↦ r.faithful) fun r ↦ by simp [Reasoning.toJson]
  have hcall : Faithful Json.rereadSlot? (Json.optional (ToolCall.ofJson? (room - 1))) b.call
      (b.call.map ToolCall.toJson) := by
    refine .optional (fun c hc ↦ ToolCall.faithful (hb.call c hc) ?_) fun c ↦ by
      simp [ToolCall.toJson]
    exact hsound ("toolUse", b.call.map ToolCall.toJson) (by simp) _ (Option.mem_map_of_mem _ hc)
  have hresult : Faithful Json.rereadSlot? (Json.optional (ToolResult.ofJson? (room - 1))) b.result
      (b.result.map ToolResult.toJson) := by
    refine .optional (fun r hr ↦ ToolResult.faithful (hb.result r hr) ?_) fun r ↦ by
      simp [ToolResult.toJson]
    exact hsound ("toolResult", b.result.map ToolResult.toJson) (by simp) _
      (Option.mem_map_of_mem _ hr)
  refine ⟨ofJson?_eq_some_iff.mpr ⟨_, _, _, _, Json.slots?_written rfl (by decide),
    htext.read_eq, hreasoning.read_eq, hcall.read_eq, hresult.read_eq⟩, fun w hw hread ↦ ?_⟩
  obtain ⟨text, reasoning, call, result, hslots, htext', hreasoning', hcall', hresult'⟩ :=
    ofJson?_eq_some_iff.mp hread
  refine Json.eq_written_of_reread? rfl (by decide) hw hslots
    (.cons ?_ (.cons ?_ (.cons ?_ (.cons ?_ .nil))))
  · exact fun h ↦ htext.eq_of_again _ h htext'
  · exact fun h ↦ hreasoning.eq_of_again _ h hreasoning'
  · exact fun h ↦ hcall.eq_of_again _ h hcall'
  · exact fun h ↦ hresult.eq_of_again _ h hresult'

theorem rewrites {room : Nat} {j : Json} {b : Block} (h : ofJson? room j = some b)
    (hj : j.sound room = true) : Rewrites room j b.toJson := by
  obtain ⟨text, reasoning, call, result, hslots, -, hreasoning, hcall, hresult⟩ :=
    ofJson?_eq_some_iff.mp h
  have hsound := Json.sound_of_slots? hslots hj
  rw [toJson_eq]
  refine Json.rewrites_written (Json.ne_zero_of_slots? hslots hj) hslots
    (.cons ?_ (.cons ?_ (.cons ?_ (.cons ?_ .nil))))
  · exact Json.rewritesSlot_text _ _ _
  · exact Json.rewritesSlot_optional hreasoning fun v hv _ h ↦
      Reasoning.rewrites h (hsound reasoning (by simp) v hv)
  · exact Json.rewritesSlot_optional hcall fun v hv _ h ↦
      ToolCall.rewrites h (hsound call (by simp) v hv)
  · exact Json.rewritesSlot_optional hresult fun v hv _ h ↦
      ToolResult.rewrites h (hsound result (by simp) v hv)

theorem ordered_of_ofJson? {room : Nat} {j : Json} {b : Block} (h : ofJson? room j = some b) :
    b.Ordered := by
  obtain ⟨text, reasoning, call, result, -, -, -, hcall, hresult⟩ := ofJson?_eq_some_iff.mp h
  constructor
  · intro c hc
    rw [Option.mem_def.mp hc] at hcall
    obtain ⟨_, _, -, hread⟩ := Json.optional_eq_some_some_iff.mp hcall
    exact ToolCall.ordered_of_ofJson? hread
  · intro r hr
    rw [Option.mem_def.mp hr] at hresult
    obtain ⟨_, _, -, hread⟩ := Json.optional_eq_some_some_iff.mp hresult
    exact ToolResult.ordered_of_ofJson? hread

end Block

namespace Message

/-- The values that the message holds are values by key. -/
def Ordered (m : Message) : Prop :=
  ∀ b ∈ m.content, b.Ordered

theorem toJson_eq (m : Message) : m.toJson = .object (written [("role", some m.role.toJson),
    ("content", some (.array (m.content.map Block.toJson)))]) :=
  rfl

/-- A message whose values are values by key is read from what is written for it, and can be told
from any other. -/
theorem faithful {room : Nat} {m : Message} (hm : m.Ordered) (hsound : m.toJson.sound room = true) :
    Faithful Json.reread? (ofJson? room) m m.toJson := by
  rw [toJson_eq] at hsound ⊢
  have harray :=
    (Json.sound_written_iff.mp hsound).2 ("content", some (.array (m.content.map Block.toJson)))
    (by simp) _ rfl
  have hrole : Faithful Json.rereadSlot? (Json.required Role.ofJson?) m.role (some m.role.toJson) :=
    m.role.faithful.given fun _ ↦ rfl
  have hcontent :
      Faithful Json.rereadSlot? (Json.defaulted [] (Json.asList (Block.ofJson? (room - 2))))
      m.content (some (.array (m.content.map Block.toJson))) := by
    refine Faithful.given (.list fun b hb ↦ Block.faithful (hm b hb) ?_) fun _ ↦ rfl
    exact (Json.sound_array_iff.mp harray).2 _ (List.mem_map_of_mem hb)
  refine ⟨ofJson?_eq_some_iff.mpr ⟨_, _, Json.slots?_written rfl (by decide), hrole.read_eq,
    hcontent.read_eq⟩, fun w hw hread ↦ ?_⟩
  obtain ⟨role, content, hslots, hrole', hcontent'⟩ := ofJson?_eq_some_iff.mp hread
  refine Json.eq_written_of_reread? rfl (by decide) hw hslots (.cons ?_ (.cons ?_ .nil))
  · exact fun h ↦ hrole.eq_of_again _ h hrole'
  · exact fun h ↦ hcontent.eq_of_again _ h hcontent'

/-- What is written for a message that has been read.  Its content is written even if it was
missing. -/
theorem rewrites {room : Nat} (hroom : 2 ≤ room) {j : Json} {m : Message}
    (h : ofJson? room j = some m) (hj : j.sound room = true) : Rewrites room j m.toJson := by
  obtain ⟨role, content, hslots, -, hcontent⟩ := ofJson?_eq_some_iff.mp h
  have hsound := Json.sound_of_slots? hslots hj content (by simp)
  rw [toJson_eq]
  refine Json.rewrites_written (Json.ne_zero_of_slots? hslots hj) hslots (.cons ?_ (.cons ?_ .nil))
  · exact Json.rewritesSlot_text _ _ (some m.role.name)
  · refine Json.rewritesSlot_defaulted hcontent ?_ fun v hv hlist ↦ ?_
    · intro hempty
      rw [hempty]
      refine ⟨Json.sound_array_iff.mpr ⟨by omega, nofun⟩, ?_⟩
      rintro i (_ | ⟨hmem, -⟩)
      cases hmem
    · exact Json.rewrites_list hlist (hsound v hv) fun i hi _ hb ↦
        Block.rewrites hb (hi.sound (hsound v hv))

theorem ordered_of_ofJson? {room : Nat} {j : Json} {m : Message} (h : ofJson? room j = some m) :
    m.Ordered := by
  obtain ⟨role, content, -, -, hcontent⟩ := ofJson?_eq_some_iff.mp h
  exact Json.forall_of_defaulted_list hcontent fun _ _ ↦ Block.ordered_of_ofJson?

end Message

end AgentConsole
