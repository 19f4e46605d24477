import AgentConsole.Proofs.Callback.Rewriting
import AgentConsole.Proofs.Json.Object

/-!
# Payloads and the rest of a callback

A message and a tool update come from elsewhere than the rest of a callback, and may look like
anything.  The reader takes the fields of a callback one by one, and a value that stands in one of
these two fields is not looked at for any other.  So whatever is added there, as long as it is a
value at all, decides about its own field only: the callback is read if it was read without, and is
otherwise the same.

* `Callback.Gives` : a callback, field by field.
* `Payload.Received` : what becomes of a value in one of the two fields.
* `Callback.read?_of_addsMember` : adding such a field.
-/

namespace AgentConsole

open Json (slot? Members ofMembers AddsMember)

namespace Json

/-! ## Members among others -/

theorem slot?_insert {before after : Members} {key : String} {spellings : List String}
    (h : key ∉ spellings) (v : Json) :
    slot? (before ++ (key, v) :: after) spellings = slot? (before ++ after) spellings := by
  simp [slot?, List.filter_append, h]

theorem filter_eq_nil_of_forall_ne {members : Members} {key : String}
    (h : ∀ m ∈ members, m.1 ≠ key) :
    (members.filter fun m ↦ [key].contains m.1) = [] := by
  simpa using fun k j hm ↦ h (k, j) hm

theorem slot?_of_forall_ne {members : Members} {key : String} (h : ∀ m ∈ members, m.1 ≠ key) :
    slot? members [key] = some none := by
  rw [slot?, filter_eq_nil_of_forall_ne h]

theorem slot?_insert_self {before after : Members} {key : String}
    (h : ∀ m ∈ before ++ after, m.1 ≠ key) (v : Json) :
    slot? (before ++ (key, v) :: after) [key] = some (some v) := by
  obtain ⟨hbefore, hafter⟩ := List.forall_mem_append.mp h
  rw [slot?, List.filter_append, filter_eq_nil_of_forall_ne hbefore,
    List.filter_cons_of_pos (by simp), filter_eq_nil_of_forall_ne hafter]
  rfl

/-- Either some key denotes nothing, and there is an object neither with the member nor without it,
or there is one in both cases. -/
theorem ofMembers_insert {before after : List (Option String × Json)} {key : String}
    (h : ∀ m ∈ before ++ after, m.1 ≠ some key) (v : Json) :
    (ofMembers (before ++ after) = .void ∧
      ofMembers (before ++ (some key, v) :: after) = .void) ∨
      ∃ front back : Members, (∀ m ∈ front ++ back, m.1 ≠ key) ∧
        ofMembers (before ++ after) = .object (front ++ back) ∧
        ofMembers (before ++ (some key, v) :: after) = .object (front ++ (key, v) :: back) := by
  rcases eq_map_or_none_mem (before ++ after) with ⟨named, hnamed⟩ | ⟨w, hw⟩
  · obtain ⟨front, back, -, rfl, rfl⟩ := List.append_eq_map_iff.mp hnamed
    refine .inr ⟨front, back, fun m hm hkey ↦ ?_, ?_, ofMembers_map_insert front back key v⟩
    · rw [← List.map_append] at h
      exact h _ (List.mem_map_of_mem hm) (congrArg some hkey)
    · rw [← List.map_append, ofMembers_map]
  · have hw' : (none, w) ∈ before ++ (some key, v) :: after := by simpa using hw
    exact .inl ⟨ofMembers_of_none_mem hw, ofMembers_of_none_mem hw'⟩

end Json

/-! ## Payloads -/

/-- What becomes of a value that is given for a payload. -/
structure Payload.Received {α : Type} (shape : Json → Prop) (v : Json)
    (p : Option (Payload α)) : Prop where
  absent_iff : p = none ↔ v = .null
  valid_iff : (∃ a, p = some (.valid a)) ↔ shape v
  malformed : v ≠ .null → ¬ shape v → p = some (.malformed v.normal)

/-- Any sound value is received. -/
theorem Payload.exists_received {α : Type} {room : Nat} {read : Json → Option α}
    {shape : Json → Prop} {v : Json} (hv : v.sound room = true)
    (hshape : (∃ a, read v = some a) ↔ shape v)
    (hnull : ¬ shape .null) :
    ∃ p, Json.optional (Payload.ofJson? room read) (some v) = some p ∧
      Payload.Received shape v p := by
  by_cases hvnull : v = .null
  · subst hvnull
    exact ⟨none, rfl, by simp, by simpa using hnull, fun hne ↦ absurd rfl hne⟩
  have hoptional : ∀ p, ofJson? room read v = some p →
      Json.optional (ofJson? room read) (some v) = some (some p) :=
    fun p hp ↦ Json.optional_eq_some_some_iff.mpr ⟨v, rfl, hvnull, hp⟩
  cases hread : read v with
  | some a =>
    refine ⟨some (.valid a), hoptional _ (ofJson?_eq_valid_iff.mpr ⟨hv, hread⟩),
      by simpa using hvnull, ?_, ?_⟩
    · exact iff_of_true ⟨a, rfl⟩ (hshape.mp ⟨a, hread⟩)
    · exact fun _ hne ↦ absurd (hshape.mp ⟨a, hread⟩) hne
  | none =>
    have hne : ¬ shape v := by
      rw [← hshape, hread]
      rintro ⟨a, ha⟩
      cases ha
    refine ⟨some (.malformed v.normal),
      hoptional _ (ofJson?_eq_malformed_iff.mpr ⟨hv, hread, rfl⟩), by
      simpa using hvnull, ?_, fun _ _ ↦ rfl⟩
    refine iff_of_false ?_ hne
    rintro ⟨a, ha⟩
    cases ha

/-! ## Callbacks, field by field -/

namespace Callback

/-- What each field of a callback is read from.  The values of the fields are given by their
spellings. -/
structure Gives (room : Nat) (slot : List String → Option (Option Json))
    (c : Callback) : Prop where
  reasoningText : (slot ["reasoningText", "reasoning_text"]).bind (Json.optional Json.asString) =
    some c.reasoningText
  data : (slot ["data"]).bind (Json.optional Json.asString) = some c.data
  complete : (slot ["complete"]).bind (Json.defaulted false Json.asBool) = some c.complete
  forceStop : (slot ["force_stop"]).bind (Json.defaulted false Json.asBool) = some c.forceStop
  message : (slot ["message"]).bind
    (Json.optional (Payload.ofJson? (room - 1) (Message.ofJson? (room - 1)))) = some c.message
  tool : (slot ["current_tool_use"]).bind
    (Json.optional (Payload.ofJson? (room - 1) (ToolUpdate.ofJson? (room - 1)))) = some c.tool
  initLoop : (slot ["init_event_loop"]).bind (Json.defaulted false Json.asBool) = some c.initLoop
  startLoop : (slot ["start_event_loop"]).bind (Json.defaulted false Json.asBool) = some c.startLoop
  throttledDelay : (slot ["event_loop_throttled_delay"]).bind (Json.optional Json.asFloat) =
    some c.throttledDelay
  console : (slot ["console"]).bind (Json.optional Console.ofJson?) = some c.console

variable {room : Nat} {members : Members} {c : Callback}

theorem ofJson?_object_eq_some_iff :
    ofJson? room (.object members) = some c ↔ Gives room (slot? members) c := by
  rw [ofJson?_eq_some_iff]
  simp only [Json.slots?, fields, mapM_eq_some_iff, List.forall₂_cons]
  constructor
  · rintro ⟨_, _, _, _, _, _, _, _, _, _,
      ⟨h₁, h₂, h₃, h₄, h₅, h₆, h₇, h₈, h₉, h₁₀, -⟩, hreasoning, hdata,
      hcomplete, hforceStop, hmessage, htool, hinitLoop, hstartLoop, hdelay, hconsole⟩
    constructor
    · rw [h₁, Option.bind_some, hreasoning]
    · rw [h₂, Option.bind_some, hdata]
    · rw [h₃, Option.bind_some, hcomplete]
    · rw [h₄, Option.bind_some, hforceStop]
    · rw [h₅, Option.bind_some, hmessage]
    · rw [h₆, Option.bind_some, htool]
    · rw [h₇, Option.bind_some, hinitLoop]
    · rw [h₈, Option.bind_some, hstartLoop]
    · rw [h₉, Option.bind_some, hdelay]
    · rw [h₁₀, Option.bind_some, hconsole]
  · intro h
    obtain ⟨_, h₁, hreasoning⟩ := Option.bind_eq_some_iff.mp h.reasoningText
    obtain ⟨_, h₂, hdata⟩ := Option.bind_eq_some_iff.mp h.data
    obtain ⟨_, h₃, hcomplete⟩ := Option.bind_eq_some_iff.mp h.complete
    obtain ⟨_, h₄, hforceStop⟩ := Option.bind_eq_some_iff.mp h.forceStop
    obtain ⟨_, h₅, hmessage⟩ := Option.bind_eq_some_iff.mp h.message
    obtain ⟨_, h₆, htool⟩ := Option.bind_eq_some_iff.mp h.tool
    obtain ⟨_, h₇, hinitLoop⟩ := Option.bind_eq_some_iff.mp h.initLoop
    obtain ⟨_, h₈, hstartLoop⟩ := Option.bind_eq_some_iff.mp h.startLoop
    obtain ⟨_, h₉, hdelay⟩ := Option.bind_eq_some_iff.mp h.throttledDelay
    obtain ⟨_, h₁₀, hconsole⟩ := Option.bind_eq_some_iff.mp h.console
    exact ⟨_, _, _, _, _, _, _, _, _, _,
      ⟨h₁, h₂, h₃, h₄, h₅, h₆, h₇, h₈, h₉, h₁₀, .nil⟩, hreasoning, hdata,
      hcomplete, hforceStop, hmessage, htool, hinitLoop, hstartLoop, hdelay, hconsole⟩

/-- Other payloads leave the other fields as they are. -/
theorem Gives.withPayloads {slot slot' : List String → Option (Option Json)}
    (h : Gives room slot c)
    (hother : ∀ spellings, "message" ∉ spellings → "current_tool_use" ∉ spellings →
      slot' spellings = slot spellings) {message : Option (Payload Message)}
    (hmessage : (slot' ["message"]).bind
      (Json.optional (Payload.ofJson? (room - 1) (Message.ofJson? (room - 1)))) = some message)
    {tool : Option (Payload ToolUpdate)}
    (htool : (slot' ["current_tool_use"]).bind
      (Json.optional (Payload.ofJson? (room - 1) (ToolUpdate.ofJson? (room - 1)))) = some tool) :
    Gives room slot' { c with message := message, tool := tool } := by
  constructor
  · rw [hother _ (by decide) (by decide)]
    exact h.reasoningText
  · rw [hother _ (by decide) (by decide)]
    exact h.data
  · rw [hother _ (by decide) (by decide)]
    exact h.complete
  · rw [hother _ (by decide) (by decide)]
    exact h.forceStop
  · exact hmessage
  · exact htool
  · rw [hother _ (by decide) (by decide)]
    exact h.initLoop
  · rw [hother _ (by decide) (by decide)]
    exact h.startLoop
  · rw [hother _ (by decide) (by decide)]
    exact h.throttledDelay
  · rw [hother _ (by decide) (by decide)]
    exact h.console

section

variable {front back : Members} {v : Json}

theorem ofJson?_insert_message (hkey : ∀ m ∈ front ++ back, m.1 ≠ "message")
    {p : Option (Payload Message)}
    (hp : Json.optional (Payload.ofJson? (room - 1) (Message.ofJson? (room - 1)))
      (some v) = some p) :
    (∀ c ∈ ofJson? room (.object (front ++ back)), c.message = none) ∧
      ofJson? room (.object (front ++ ("message", v) :: back)) =
        (ofJson? room (.object (front ++ back))).map fun c ↦ { c with message := p } := by
  have hself := Json.slot?_insert_self hkey v
  have hnone := Json.slot?_of_forall_ne hkey
  have hother := @Json.slot?_insert front back "message" ["current_tool_use"] (by decide) v
  constructor
  · intro c hc
    have hmessage := (ofJson?_object_eq_some_iff.mp hc).message
    rw [hnone] at hmessage
    exact (Option.some.inj hmessage).symm
  · ext c'
    rw [ofJson?_object_eq_some_iff, Option.map_eq_some_iff]
    constructor
    · intro h
      have hmessage := h.message
      rw [hself, Option.bind_some, hp] at hmessage
      refine ⟨{ c' with message := none }, ofJson?_object_eq_some_iff.mpr ?_, ?_⟩
      · refine h.withPayloads (fun _ hsp _ ↦ (Json.slot?_insert hsp v).symm) ?_ ?_
        · rw [hnone]
          rfl
        · rw [← hother]
          exact h.tool
      · rw [Option.some.inj hmessage]
    · rintro ⟨c, hc, rfl⟩
      have h := ofJson?_object_eq_some_iff.mp hc
      refine h.withPayloads (fun _ hsp _ ↦ Json.slot?_insert hsp v) ?_ ?_
      · rw [hself, Option.bind_some, hp]
      · rw [hother]
        exact h.tool

theorem ofJson?_insert_tool (hkey : ∀ m ∈ front ++ back, m.1 ≠ "current_tool_use")
    {p : Option (Payload ToolUpdate)}
    (hp : Json.optional (Payload.ofJson? (room - 1) (ToolUpdate.ofJson? (room - 1)))
      (some v) = some p) :
    (∀ c ∈ ofJson? room (.object (front ++ back)), c.tool = none) ∧
      ofJson? room (.object (front ++ ("current_tool_use", v) :: back)) =
        (ofJson? room (.object (front ++ back))).map fun c ↦ { c with tool := p } := by
  have hself := Json.slot?_insert_self hkey v
  have hnone := Json.slot?_of_forall_ne hkey
  have hother := @Json.slot?_insert front back "current_tool_use" ["message"] (by decide) v
  constructor
  · intro c hc
    have htool := (ofJson?_object_eq_some_iff.mp hc).tool
    rw [hnone] at htool
    exact (Option.some.inj htool).symm
  · ext c'
    rw [ofJson?_object_eq_some_iff, Option.map_eq_some_iff]
    constructor
    · intro h
      have htool := h.tool
      rw [hself, Option.bind_some, hp] at htool
      refine ⟨{ c' with tool := none }, ofJson?_object_eq_some_iff.mpr ?_, ?_⟩
      · refine h.withPayloads (fun _ _ hsp ↦ (Json.slot?_insert hsp v).symm) ?_ ?_
        · rw [← hother]
          exact h.message
        · rw [hnone]
          rfl
      · rw [Option.some.inj htool]
    · rintro ⟨c, hc, rfl⟩
      have h := ofJson?_object_eq_some_iff.mp hc
      refine h.withPayloads (fun _ _ hsp ↦ Json.slot?_insert hsp v) ?_ ?_
      · rw [hother]
        exact h.message
      · rw [hself, Option.bind_some, hp]

end

theorem ofJson?_void : ofJson? room .void = none := rfl

/-- A text with one more field.  Let a value be added to the text of an object, under the key of the
message or of the tool update and where the object has no such key yet.  Then the text is read as a
callback exactly if it was before, and the callbacks differ in this field only.  The field is empty
for `null`, holds a message or an update for a value of its shape, and holds any other value in
normal form.

A member can always be added, for instance by writing it before the closing brace. -/
theorem read?_of_addsMember {v : Json} (hv : v.sound (Json.depthLimit - 1) = true) (s s' : String) :
    (AddsMember "message" v s s' → ∃ p, Payload.Received Message.HasShape v p ∧
      (∀ c ∈ read? s, c.message = none) ∧
      read? s' = (read? s).map fun c ↦ { c with message := p }) ∧
    (AddsMember "current_tool_use" v s s' → ∃ p, Payload.Received ToolUpdate.HasShape v p ∧
      (∀ c ∈ read? s, c.tool = none) ∧
      read? s' = (read? s).map fun c ↦ { c with tool := p }) ∧
    (∀ front back value key, s = front ++ "\x7d" ++ back →
      (∀ ch ∈ back.toList, Json.isBlank ch = true) →
      Json.parse? value = some v → ∀ j ∈ Json.parse? s, ∃ members, j = ofMembers members ∧
        ((∀ m ∈ members, m.1 ≠ some key) →
          AddsMember key v s (Json.withMember front back members.isEmpty key value))) := by
  refine ⟨?_, ?_, ?_⟩
  · rintro ⟨before, after, hkey, hs, hs'⟩
    obtain ⟨p, hp, hreceived⟩ := Payload.exists_received hv (Message.exists_ofJson?_iff hv) id
    refine ⟨p, hreceived, ?_⟩
    rw [read?, read?, hs, hs', Option.bind_some, Option.bind_some]
    rcases Json.ofMembers_insert hkey v with ⟨hvoid, hvoid'⟩ |
      ⟨front, back, hne, hobject, hobject'⟩
    · rw [hvoid, hvoid', ofJson?_void]
      exact ⟨fun c hc ↦ absurd hc (Option.not_mem_none c), rfl⟩
    · rw [hobject, hobject']
      exact ofJson?_insert_message hne hp
  · rintro ⟨before, after, hkey, hs, hs'⟩
    obtain ⟨p, hp, hreceived⟩ :=
      Payload.exists_received hv (ToolUpdate.exists_ofJson?_iff hv) id
    refine ⟨p, hreceived, ?_⟩
    rw [read?, read?, hs, hs', Option.bind_some, Option.bind_some]
    rcases Json.ofMembers_insert hkey v with ⟨hvoid, hvoid'⟩ |
      ⟨front, back, hne, hobject, hobject'⟩
    · rw [hvoid, hvoid', ofJson?_void]
      exact ⟨fun c hc ↦ absurd hc (Option.not_mem_none c), rfl⟩
    · rw [hobject, hobject']
      exact ofJson?_insert_tool hne hp
  · rintro front back value key rfl hback hvalue j hj
    exact Json.addsMember_withMember hback hj hvalue key

theorem addsMember_message : AddsMember "message" (.object [("role", .number (.int 7))])
    "\x7b\"data\":\"Hi\"\x7d" "\x7b \"message\": \x7b\"role\":7\x7d, \"data\": \"Hi\"\x7d" :=
  ⟨[], [(some "data", .string "Hi")], by simp, rfl, rfl⟩

/-- A message that has a number for its role, in front of another field. -/
theorem read?_of_malformed_message :
    AddsMember "message" (.object [("role", .number (.int 7))]) "\x7b\"data\":\"Hi\"\x7d"
      "\x7b \"message\": \x7b\"role\":7\x7d, \"data\": \"Hi\"\x7d" ∧
    ∃ p, Payload.Received Message.HasShape (.object [("role", .number (.int 7))]) p ∧
      read? "\x7b \"message\": \x7b\"role\":7\x7d, \"data\": \"Hi\"\x7d" =
        (read? "\x7b\"data\":\"Hi\"\x7d").map fun c ↦ { c with message := p } := by
  obtain ⟨p, hreceived, -, hread⟩ := (read?_of_addsMember rfl _ _).1 addsMember_message
  exact ⟨addsMember_message, p, hreceived, hread⟩

end Callback

end AgentConsole
