import AgentConsole.Callback.Codec
import AgentConsole.Proofs.Chat.Rewriting

/-!
# Callbacks that are read, written and read again

The parts of a callback are written like those of a message.  Two of its fields are different.  A
payload of the wrong shape is written as the value that it was, with nothing that says so: whether
it is one has to be found out anew.  And the delay is a floating-point number, whatever numeral it
was given by.

* `Callback.eq_of_again` : a callback can be told from any other by what it is written as.
* `Callback.ofJson?_toJson_iff` : a callback is read from what is written for it exactly if no
  payload of the wrong shape has the right one.
* `Callback.rewrites` : what is written for a callback that has been read.
* `Callback.exists_kept` : what is read where some numbers are read as other ones.
-/

namespace AgentConsole

open Json (Field IsRecord KeepsForm Lasting Renumbered Faithful Rewrites RewritesSlot Occurs
  written)

/-! ## Tool updates -/

namespace ToolUpdate

variable {room : Nat} {j : Json}

/-- The shape of a tool update.  Its input is any value. -/
def HasShape : Json → Prop :=
  IsRecord [.text "toolUseId", .text "name", ⟨"input", .defaulted, fun _ ↦ True⟩]

theorem ofJson?_eq_some_iff {u : ToolUpdate} :
    ofJson? room j = some u ↔ ∃ id name input, j.slots? fields = some [id, name, input] ∧
      Json.optional Json.asString id = some u.id ∧
      Json.optional Json.asString name = some u.name ∧
      Json.defaulted "" (fun j ↦ (Json.asValue (room - 1) j).map inputText) input =
        some u.input := by
  unfold ofJson?
  constructor
  · intro h
    obtain ⟨slots, hslots, h⟩ := Option.bind_eq_some_iff.mp h
    split at h
    · obtain ⟨_, hid, h⟩ := Option.bind_eq_some_iff.mp h
      obtain ⟨_, hname, h⟩ := Option.bind_eq_some_iff.mp h
      obtain ⟨_, hinput, h⟩ := Option.bind_eq_some_iff.mp h
      cases h
      exact ⟨_, _, _, hslots, hid, hname, hinput⟩
    · cases h
  · rintro ⟨id, name, input, hslots, hid, hname, hinput⟩
    simp [hslots, hid, hname, hinput]

/-- A sound value is read as a tool update if it has the shape of one. -/
theorem exists_ofJson?_iff (hj : j.sound room = true) :
    (∃ u, ofJson? room j = some u) ↔ HasShape j := by
  rw [HasShape, Json.isRecord_iff]
  have hvalue : ∀ v, v.sound (room - 1) = true →
      ((∃ s, (Json.asValue (room - 1) v).map inputText = some s) ↔ True) := by
    intro v hv
    simp [Json.asValue, hv]
  constructor
  · rintro ⟨u, hu⟩
    obtain ⟨id, name, input, hslots, hid, hname, hinput⟩ := ofJson?_eq_some_iff.mp hu
    have hsound := Json.sound_of_slots? hslots hj input (by simp)
    refine ⟨_, hslots,
      .cons (Json.exists_text_iff.mp ⟨_, hid⟩)
        (.cons (Json.exists_text_iff.mp ⟨_, hname⟩) (.cons ?_ .nil))⟩
    exact (Json.exists_defaulted_iff rfl fun v hv ↦ hvalue v (hsound v hv)).mp ⟨_, hinput⟩
  · rintro ⟨_, hslots, _ | ⟨hid, _ | ⟨hname, _ | ⟨hinput, _ | _⟩⟩⟩⟩
    have hsound := Json.sound_of_slots? hslots hj
    obtain ⟨id, hid⟩ := Json.exists_text_iff.mpr hid
    obtain ⟨name, hname⟩ := Json.exists_text_iff.mpr hname
    obtain ⟨input, hinput⟩ :=
      (Json.exists_defaulted_iff rfl fun v hv ↦ hvalue v (hsound _ (by simp) v hv)).mpr hinput
    exact ⟨⟨id, name, input⟩,
      ofJson?_eq_some_iff.mpr ⟨_, _, _, hslots, hid, hname, hinput⟩⟩

theorem lasting_hasShape {change : Json → Json} {among : Json → Prop}
    (h : KeepsForm change among) :
    Lasting change among HasShape := by
  refine Json.lasting_isRecord h ?_
  simpa using ⟨Json.lasting_isText h, Json.lasting_isText h, Json.lasting_true⟩

theorem toJson_eq (u : ToolUpdate) : u.toJson = .object (written [("toolUseId", u.id.map .string),
    ("name", u.name.map .string), ("input", some (.string u.input))]) := by
  simp [toJson, Json.member]

/-- Only texts are written for a tool update, so it is read again as it was. -/
theorem faithful (room : Nat) (u : ToolUpdate) :
    Faithful Json.reread? (ofJson? room) u u.toJson := by
  have hid := Json.faithful_text u.id
  have hname := Json.faithful_text u.name
  have hinput : Faithful Json.rereadSlot?
      (Json.defaulted "" fun j ↦ (Json.asValue (room - 1) j).map inputText) u.input
      (some (.string u.input)) := by
    refine Faithful.given (Json.faithful_of_again rfl ?_) fun _ ↦ rfl
    simp [Json.defaulted, Json.asValue, Json.sound, Json.normal, inputText]
  rw [toJson_eq]
  refine ⟨ofJson?_eq_some_iff.mpr ⟨_, _, _, Json.slots?_written rfl (by decide), hid.read_eq,
    hname.read_eq, hinput.read_eq⟩, fun w hw hread ↦ ?_⟩
  obtain ⟨id, name, input, hslots, hid', hname', hinput'⟩ := ofJson?_eq_some_iff.mp hread
  refine Json.eq_written_of_reread? rfl (by decide) hw hslots (.cons ?_ (.cons ?_ (.cons ?_ .nil)))
  · exact fun h ↦ hid.eq_of_again _ h hid'
  · exact fun h ↦ hname.eq_of_again _ h hname'
  · exact fun h ↦ hinput.eq_of_again _ h hinput'

theorem rewrites {u : ToolUpdate} (h : ofJson? room j = some u) (hj : j.sound room = true) :
    Rewrites room j u.toJson := by
  obtain ⟨id, name, input, hslots, -⟩ := ofJson?_eq_some_iff.mp h
  rw [toJson_eq]
  refine Json.rewrites_written (Json.ne_zero_of_slots? hslots hj) hslots
    (.cons ?_ (.cons ?_ (.cons ?_ .nil)))
  · exact Json.rewritesSlot_text _ _ _
  · exact Json.rewritesSlot_text _ _ _
  · exact Json.rewritesSlot_text _ _ (some u.input)

end ToolUpdate

/-! ## Payloads -/

namespace Payload

variable {α : Type} {room : Nat} {read : Json → Option α} {write : α → Json} {j : Json}
  {p : Payload α}

theorem ofJson?_eq_valid_iff {a : α} :
    ofJson? room read j = some (.valid a) ↔ j.sound room = true ∧ read j = some a := by
  rw [ofJson?]
  split
  · next hj => cases read j <;> simp [hj]
  · next hj => simp [hj]

theorem ofJson?_eq_malformed_iff {raw : Json} :
    ofJson? room read j = some (.malformed raw) ↔
      j.sound room = true ∧ read j = none ∧ j.normal = raw := by
  rw [ofJson?]
  split
  · next hj => cases read j <;> simp [hj]
  · next hj => simp [hj]

/-- What a payload holds has lost nothing by being read: a value of the right shape meets a
condition of its own, and one of the wrong shape is a value by key and not `null`. -/
def Ordered (ordered : α → Prop) : Payload α → Prop
  | valid a => ordered a
  | malformed raw => raw.Ordered ∧ raw ≠ .null

/-- A payload of the wrong shape does not have the right one. -/
def IsJudged (shape : Json → Prop) : Payload α → Prop
  | valid _ => True
  | malformed raw => ¬ shape raw

/-- A payload can be told from any other by what it is written as. -/
theorem eq_of_again {ordered : α → Prop} (hp : p.Ordered ordered)
    (hvalid : ∀ a, p = .valid a → ∀ w, Json.reread? (write a) = some w →
      read w = some a → w = write a)
    {w : Json} (hw : Json.reread? (p.toJson write) = some w)
    (hread : ofJson? room read w = some p) :
    w = p.toJson write := by
  cases p with
  | valid a =>
    obtain ⟨-, hread⟩ := ofJson?_eq_valid_iff.mp hread
    exact hvalid a rfl w hw hread
  | malformed raw =>
    obtain ⟨-, -, hnormal⟩ := ofJson?_eq_malformed_iff.mp hread
    obtain ⟨hordered, -⟩ := hp
    rw [(hordered.reread hw).normal_eq] at hnormal
    exact hnormal

/-- A payload is read from what is written for it, unless it is one of the wrong shape only by
name. -/
theorem ofJson?_toJson_iff {ordered : α → Prop} {shape : Json → Prop} (hp : p.Ordered ordered)
    (hsound : (p.toJson write).sound room = true)
    (hvalid : ∀ a, p = .valid a → read (write a) = some a)
    (hshape : ∀ j, j.sound room = true → ((∃ a, read j = some a) ↔ shape j)) :
    ofJson? room read (p.toJson write) = some p ↔ p.IsJudged shape := by
  cases p with
  | valid a => exact iff_of_true (ofJson?_eq_valid_iff.mpr ⟨hsound, hvalid a rfl⟩) trivial
  | malformed raw =>
    rw [ofJson?_eq_malformed_iff, IsJudged, ← hshape raw hsound]
    obtain ⟨hordered, -⟩ := hp
    constructor
    · rintro ⟨-, hnone, -⟩ ⟨a, ha⟩
      rw [toJson, ha] at hnone
      cases hnone
    · intro hnone
      refine ⟨hsound, ?_, hordered.normal_eq⟩
      exact Option.eq_none_iff_forall_ne_some.mpr fun a ha ↦ hnone ⟨a, ha⟩

theorem rewrites (h : ofJson? room read j = some p)
    (hread : ∀ a, read j = some a → j.sound room = true → Rewrites room j (write a)) :
    Rewrites room j (p.toJson write) := by
  cases p with
  | valid a =>
    obtain ⟨hsound, hread'⟩ := ofJson?_eq_valid_iff.mp h
    exact hread a hread' hsound
  | malformed raw =>
    obtain ⟨hsound, -, rfl⟩ := ofJson?_eq_malformed_iff.mp h
    exact ⟨Json.sound_normal hsound, fun _ ↦ Json.occurs_of_occurs_normal⟩

theorem ordered_of_ofJson? {ordered : α → Prop} (hnull : j ≠ .null)
    (h : ofJson? room read j = some p) (hread : ∀ a, read j = some a → ordered a) :
    p.Ordered ordered := by
  cases p with
  | valid a => exact hread a (ofJson?_eq_valid_iff.mp h).2
  | malformed raw =>
    obtain ⟨-, -, rfl⟩ := ofJson?_eq_malformed_iff.mp h
    exact ⟨Json.ordered_normal j, fun hn ↦ hnull (Json.normal_eq_null_iff.mp hn)⟩

/-- Where no key is repeated, a payload that has been taken for the wrong shape has the wrong
shape. -/
theorem isJudged_of_distinct {shape : Json → Prop} (h : ofJson? room read j = some p)
    (hj : j.Distinct) (hlasting : Lasting Json.normal Json.Distinct shape)
    (hshape : ∀ j, j.sound room = true → ((∃ a, read j = some a) ↔ shape j)) :
    p.IsJudged shape := by
  cases p with
  | valid a => trivial
  | malformed raw =>
    obtain ⟨hsound, hnone, rfl⟩ := ofJson?_eq_malformed_iff.mp h
    rw [IsJudged, hlasting hj, ← hshape j hsound]
    rintro ⟨a, ha⟩
    rw [hnone] at ha
    cases ha

theorem toJson_ne_null {ordered : α → Prop} (hp : p.Ordered ordered)
    (hwrite : ∀ a, write a ≠ .null) :
    p.toJson write ≠ .null := by
  cases p with
  | valid a => exact hwrite a
  | malformed raw => exact hp.2

/-- What is written for a payload is read as one of the wrong shape if it was one and its value does
not have the right shape by now. -/
theorem exists_ofJson?_again {shape : Json → Prop} (hsound : (p.toJson write).sound room = true)
    (hnumbers : (p.toJson write).Renumbered)
    (hvalid : ∀ a, p = .valid a → read (write a) = some a)
    (hshape : ∀ j, j.sound room = true → ((∃ a, read j = some a) ↔ shape j))
    (hlasting : Lasting Json.again Renumbered shape) :
    ∃ p', ofJson? room read (p.toJson write).again = some p' ∧
      ((∃ raw', p' = .malformed raw') ↔ ∃ raw, p = .malformed raw ∧ ¬ shape raw) := by
  have hagain : (p.toJson write).again.sound room = true := Json.sound_again hnumbers hsound
  have hverdict : (∃ a, read (p.toJson write).again = some a) ↔ shape (p.toJson write) := by
    rw [hshape _ hagain, hlasting hnumbers]
  cases hread : read (p.toJson write).again with
  | some a =>
    refine ⟨.valid a, ofJson?_eq_valid_iff.mpr ⟨hagain, hread⟩, by simp, ?_⟩
    rintro ⟨raw, rfl, hraw⟩
    exact absurd (hverdict.mp ⟨a, hread⟩) hraw
  | none =>
    refine ⟨_, ofJson?_eq_malformed_iff.mpr ⟨hagain, hread, rfl⟩, fun _ ↦ ?_,
      fun _ ↦ ⟨_, rfl⟩⟩
    have hne : ¬ shape (p.toJson write) := by
      rw [← hverdict, hread]
      simp
    cases p with
    | valid a => exact absurd ((hshape _ hsound).mp ⟨a, hvalid a rfl⟩) hne
    | malformed raw => exact ⟨raw, rfl, hne⟩

/-- What becomes of a payload, or of none, when what is written for it is read.  It is one of the
wrong shape if it was and its value does not have the right shape by now.  It is the same one if its
numbers are, too. -/
structure Kept (write : α → Json) (shape : Json → Prop)
    (p p' : Option (Payload α)) : Prop where
  absent_iff : p' = none ↔ p = none
  malformed_iff :
    (∃ raw', p' = some (.malformed raw')) ↔ ∃ raw, p = some (.malformed raw) ∧ ¬ shape raw
  same : (∀ q ∈ p, q.IsJudged shape ∧ ∀ x, Occurs (.float x) (q.toJson write) →
    Json.parse? (Json.text (.number (.float x))) = some (.number (.float x))) → p' = p

theorem exists_kept {ordered : α → Prop} {shape : Json → Prop} {o : Option (Payload α)}
    (hordered : ∀ p ∈ o, p.Ordered ordered)
    (hsound : ∀ p ∈ o, (p.toJson write).sound room = true)
    (hnumbers : ∀ p ∈ o, (p.toJson write).Renumbered)
    (hint : ∀ p ∈ o, ∀ i, Occurs (.int i) (p.toJson write) → Json.Bounded (.int i))
    (hvalid : ∀ a, .valid a ∈ o → read (write a) = some a) (hwrite : ∀ a, write a ≠ .null)
    (hshape : ∀ j, j.sound room = true → ((∃ a, read j = some a) ↔ shape j))
    (hlasting : Lasting Json.again Renumbered shape) :
    ∃ o', Json.optional (ofJson? room read) ((o.map (toJson write)).map Json.again) = some o' ∧
      Kept write shape o o' := by
  cases o with
  | none => exact ⟨none, rfl, by simp, by simp, fun _ ↦ rfl⟩
  | some p =>
    have hp := hnumbers p rfl
    have hvalid' : ∀ a, p = .valid a → read (write a) = some a :=
      fun a ha ↦ hvalid a (ha ▸ rfl)
    have hnull : (p.toJson write).again ≠ .null := by
      rw [Ne, Json.keepsForm_again.eq_null_iff hp]
      exact toJson_ne_null (hordered p rfl) hwrite
    obtain ⟨p', hp', hmalformed⟩ :=
      exists_ofJson?_again (hsound p rfl) hp hvalid' hshape hlasting
    refine ⟨some p', Json.optional_eq_some_some_iff.mpr ⟨_, rfl, hnull, hp'⟩, by simp,
      by simpa, ?_⟩
    intro hsame
    obtain ⟨hjudged, hfloat⟩ := hsame p rfl
    rw [Json.again_eq_self hp hfloat (hint p rfl),
      (ofJson?_toJson_iff (hordered p rfl) (hsound p rfl) hvalid' hshape).mpr hjudged] at hp'
    rw [hp']

end Payload

/-! ## Callbacks -/

theorem Console.faithful (c : Console) : Faithful Json.reread? Console.ofJson? c c.toJson := by
  refine Json.faithful_of_again rfl ?_
  simp [Console.ofJson?, Console.toJson, Json.asVariant]

namespace Callback

variable {room : Nat} {j : Json} {c : Callback}

theorem ofJson?_eq_some_iff :
    ofJson? room j = some c ↔
      ∃ reasoning data complete forceStop message tool initLoop startLoop delay console,
        j.slots? fields = some [reasoning, data, complete, forceStop, message, tool,
          initLoop, startLoop, delay, console] ∧
        Json.optional Json.asString reasoning = some c.reasoningText ∧
        Json.optional Json.asString data = some c.data ∧
        Json.defaulted false Json.asBool complete = some c.complete ∧
        Json.defaulted false Json.asBool forceStop = some c.forceStop ∧
        Json.optional (Payload.ofJson? (room - 1) (Message.ofJson? (room - 1))) message =
          some c.message ∧
        Json.optional (Payload.ofJson? (room - 1) (ToolUpdate.ofJson? (room - 1))) tool =
          some c.tool ∧
        Json.defaulted false Json.asBool initLoop = some c.initLoop ∧
        Json.defaulted false Json.asBool startLoop = some c.startLoop ∧
        Json.optional Json.asFloat delay = some c.throttledDelay ∧
        Json.optional Console.ofJson? console = some c.console := by
  unfold ofJson?
  constructor
  · intro h
    obtain ⟨slots, hslots, h⟩ := Option.bind_eq_some_iff.mp h
    split at h
    · obtain ⟨_, hreasoning, h⟩ := Option.bind_eq_some_iff.mp h
      obtain ⟨_, hdata, h⟩ := Option.bind_eq_some_iff.mp h
      obtain ⟨_, hcomplete, h⟩ := Option.bind_eq_some_iff.mp h
      obtain ⟨_, hforceStop, h⟩ := Option.bind_eq_some_iff.mp h
      obtain ⟨_, hmessage, h⟩ := Option.bind_eq_some_iff.mp h
      obtain ⟨_, htool, h⟩ := Option.bind_eq_some_iff.mp h
      obtain ⟨_, hinitLoop, h⟩ := Option.bind_eq_some_iff.mp h
      obtain ⟨_, hstartLoop, h⟩ := Option.bind_eq_some_iff.mp h
      obtain ⟨_, hdelay, h⟩ := Option.bind_eq_some_iff.mp h
      obtain ⟨_, hconsole, h⟩ := Option.bind_eq_some_iff.mp h
      cases h
      exact ⟨_, _, _, _, _, _, _, _, _, _, hslots, hreasoning, hdata, hcomplete, hforceStop,
        hmessage, htool, hinitLoop, hstartLoop, hdelay, hconsole⟩
    · cases h
  · rintro ⟨reasoning, data, complete, forceStop, message, tool, initLoop, startLoop, delay,
      console, hslots, hreasoning, hdata, hcomplete, hforceStop, hmessage, htool, hinitLoop,
      hstartLoop, hdelay, hconsole⟩
    simp [hslots, hreasoning, hdata, hcomplete, hforceStop, hmessage, htool, hinitLoop,
      hstartLoop, hdelay, hconsole]

theorem toJson_eq (c : Callback) : c.toJson = .object (written [
    ("reasoningText", c.reasoningText.map .string), ("data", c.data.map .string),
    ("complete", some (.bool c.complete)), ("force_stop", some (.bool c.forceStop)),
    ("message", c.message.map (Payload.toJson Message.toJson)),
    ("current_tool_use", c.tool.map (Payload.toJson ToolUpdate.toJson)),
    ("init_event_loop", some (.bool c.initLoop)), ("start_event_loop", some (.bool c.startLoop)),
    ("event_loop_throttled_delay", c.throttledDelay.map fun d ↦ .number (.float d)),
    ("console", c.console.map Console.toJson)]) := by
  simp [toJson, Json.member]

/-- The payloads of the callback have lost nothing by being read. -/
structure Ordered (c : Callback) : Prop where
  message : ∀ p ∈ c.message, p.Ordered Message.Ordered
  tool : ∀ p ∈ c.tool, p.Ordered fun _ ↦ True

/-- No payload of the wrong shape has the right one. -/
structure IsJudged (c : Callback) : Prop where
  message : ∀ p ∈ c.message, p.IsJudged Message.HasShape
  tool : ∀ p ∈ c.tool, p.IsJudged ToolUpdate.HasShape

theorem partOf_message {p : Payload Message} (hp : p ∈ c.message) :
    Json.PartOf (p.toJson Message.toJson) c.toJson := by
  rw [toJson_eq]
  exact Json.partOf_written (e := ("message", c.message.map (Payload.toJson Message.toJson)))
    (by simp)
    (Option.mem_map_of_mem _ hp)

theorem partOf_tool {p : Payload ToolUpdate} (hp : p ∈ c.tool) :
    Json.PartOf (p.toJson ToolUpdate.toJson) c.toJson := by
  rw [toJson_eq]
  exact Json.partOf_written
    (e := ("current_tool_use", c.tool.map (Payload.toJson ToolUpdate.toJson)))
    (by simp) (Option.mem_map_of_mem _ hp)

theorem faithful_throttledDelay (c : Callback) :
    Faithful Json.rereadSlot? (Json.optional Json.asFloat)
    c.throttledDelay (c.throttledDelay.map fun d ↦ .number (.float d)) :=
  .optional (fun d _ ↦ Json.faithful_asFloat d) nofun

theorem faithful_console (c : Callback) : Faithful Json.rereadSlot? (Json.optional Console.ofJson?)
    c.console (c.console.map Console.toJson) :=
  .optional (fun d _ ↦ d.faithful) nofun

/-- A callback can be told from any other by what it is written as. -/
theorem eq_of_again (hc : c.Ordered) (hsound : c.toJson.sound room = true) {w : Json}
    (hw : Json.reread? c.toJson = some w) (hread : ofJson? room w = some c) : w = c.toJson := by
  have htext := Json.faithful_text
  have hbool :
      ∀ b, Faithful Json.rereadSlot? (Json.defaulted false Json.asBool) b (some (.bool b)) :=
    fun b ↦ Json.faithful_of_again rfl rfl
  obtain ⟨reasoning, data, complete, forceStop, message, tool, initLoop, startLoop, delay,
    console, hslots, hreasoning', hdata', hcomplete', hforceStop', hmessage', htool', hinitLoop',
    hstartLoop', hdelay',
    hconsole'⟩ := ofJson?_eq_some_iff.mp hread
  have hmessage :
      Json.rereadSlot? (c.message.map (Payload.toJson Message.toJson)) = some message →
      message = c.message.map (Payload.toJson Message.toJson) := by
    refine fun h ↦ Json.eq_of_again_optional (fun p hp w hw hread ↦ ?_) h hmessage'
    refine p.eq_of_again (hc.message p hp) (fun m hm ↦ (Message.faithful ?_ ?_).eq_of_again) hw
      hread
    · subst hm
      exact hc.message _ hp
    · subst hm
      exact (partOf_message hp).sound hsound
  have htool : Json.rereadSlot? (c.tool.map (Payload.toJson ToolUpdate.toJson)) = some tool →
      tool = c.tool.map (Payload.toJson ToolUpdate.toJson) := by
    refine fun h ↦ Json.eq_of_again_optional (fun p hp w hw hread ↦ ?_) h htool'
    exact p.eq_of_again (hc.tool p hp) (fun u _ ↦ (u.faithful _).eq_of_again) hw hread
  rw [toJson_eq] at hw ⊢
  refine Json.eq_written_of_reread? rfl (by decide) hw hslots
    (.cons ?_ (.cons ?_ (.cons ?_ (.cons ?_ (.cons hmessage (.cons htool
      (.cons ?_ (.cons ?_ (.cons ?_ (.cons ?_ .nil))))))))))
  · exact fun h ↦ (htext _).eq_of_again _ h hreasoning'
  · exact fun h ↦ (htext _).eq_of_again _ h hdata'
  · exact fun h ↦ (hbool _).eq_of_again _ h hcomplete'
  · exact fun h ↦ (hbool _).eq_of_again _ h hforceStop'
  · exact fun h ↦ (hbool _).eq_of_again _ h hinitLoop'
  · exact fun h ↦ (hbool _).eq_of_again _ h hstartLoop'
  · exact fun h ↦ c.faithful_throttledDelay.eq_of_again _ h hdelay'
  · exact fun h ↦ c.faithful_console.eq_of_again _ h hconsole'

/-- A callback is read from what is written for it exactly if its payloads of the wrong shape stay
so. -/
theorem ofJson?_toJson_iff (hc : c.Ordered) (hsound : c.toJson.sound room = true) :
    ofJson? room c.toJson = some c ↔ c.IsJudged := by
  have hmessage : Json.optional (Payload.ofJson? (room - 1) (Message.ofJson? (room - 1)))
      (c.message.map (Payload.toJson Message.toJson)) = some c.message ↔
        ∀ p ∈ c.message, p.IsJudged Message.HasShape := by
    rw [Json.optional_map_eq_some_iff fun p hp ↦
      Payload.toJson_ne_null (hc.message p hp) fun m ↦ by simp [Message.toJson]]
    refine forall₂_congr fun p hp ↦ ?_
    refine Payload.ofJson?_toJson_iff (hc.message p hp) ((partOf_message hp).sound hsound)
      (fun m hm ↦ ?_)
      fun _ ↦ Message.exists_ofJson?_iff
    subst hm
    exact (Message.faithful (hc.message _ hp) ((partOf_message hp).sound hsound)).read_eq
  have htool : Json.optional (Payload.ofJson? (room - 1) (ToolUpdate.ofJson? (room - 1)))
      (c.tool.map (Payload.toJson ToolUpdate.toJson)) = some c.tool ↔
        ∀ p ∈ c.tool, p.IsJudged ToolUpdate.HasShape := by
    rw [Json.optional_map_eq_some_iff fun p hp ↦
      Payload.toJson_ne_null (hc.tool p hp) fun u ↦ by simp [ToolUpdate.toJson]]
    refine forall₂_congr fun p hp ↦ ?_
    exact Payload.ofJson?_toJson_iff (hc.tool p hp) ((partOf_tool hp).sound hsound)
      (fun u _ ↦ (u.faithful _).read_eq) fun _ ↦ ToolUpdate.exists_ofJson?_iff
  rw [toJson_eq, ofJson?_eq_some_iff]
  constructor
  · rintro ⟨_, _, _, _, message, tool, _, _, _, _, hslots, -, -, -, -, hmessage', htool', -⟩
    rw [Json.slots?_written rfl (by decide)] at hslots
    cases hslots
    exact ⟨hmessage.mp hmessage', htool.mp htool'⟩
  · rintro ⟨hmessage', htool'⟩
    exact ⟨_, _, _, _, _, _, _, _, _, _, Json.slots?_written rfl (by decide),
      (Json.faithful_text _).read_eq, (Json.faithful_text _).read_eq, rfl, rfl,
      hmessage.mpr hmessage',
      htool.mpr htool', rfl, rfl, c.faithful_throttledDelay.read_eq, c.faithful_console.read_eq⟩

/-- What is written for a callback that has been read.  The content of a message is written even if
it was missing, so there must be room for it. -/
theorem rewrites (hroom : 3 ≤ room) (h : ofJson? room j = some c) : Rewrites room j c.toJson := by
  obtain ⟨reasoning, data, complete, forceStop, message, tool, initLoop, startLoop, delay,
    console, hslots, -, -, -, -, hmessage, htool, -, -, -, -⟩ := ofJson?_eq_some_iff.mp h
  have hbool : ∀ slot b, RewritesSlot (room - 1) slot (some (.bool b)) := by
    intro slot b v hv
    cases Option.mem_some.mp hv
    exact ⟨rfl, nofun⟩
  rw [toJson_eq]
  refine Json.rewrites_written (by omega) hslots
    (.cons ?_ (.cons ?_ (.cons (hbool _ _) (.cons (hbool _ _) (.cons ?_ (.cons ?_
      (.cons (hbool _ _) (.cons (hbool _ _) (.cons ?_ (.cons ?_ .nil))))))))))
  · exact Json.rewritesSlot_text _ _ _
  · exact Json.rewritesSlot_text _ _ _
  · exact Json.rewritesSlot_optional hmessage fun v _ p hp ↦
      p.rewrites hp fun m ↦ Message.rewrites (by omega)
  · exact Json.rewritesSlot_optional htool fun v _ p hp ↦ p.rewrites hp fun u ↦
      ToolUpdate.rewrites
  · -- a delay is no integer, even if it was given as one
    rintro _ hv
    obtain ⟨d, -, rfl⟩ := Option.map_eq_some_iff.mp hv
    exact ⟨rfl, nofun⟩
  · have hname : c.console.map Console.toJson = (c.console.map Console.name).map .string := by
      rw [Option.map_map]
      rfl
    rw [hname]
    exact Json.rewritesSlot_text _ _ _

theorem ordered_of_ofJson? (h : ofJson? room j = some c) : c.Ordered := by
  obtain ⟨_, _, _, _, message, tool, _, _, _, _, -, -, -, -, -, hmessage, htool, -⟩ :=
    ofJson?_eq_some_iff.mp h
  constructor
  · intro p hp
    rw [Option.mem_def.mp hp] at hmessage
    obtain ⟨v, -, hnull, hread⟩ := Json.optional_eq_some_some_iff.mp hmessage
    exact p.ordered_of_ofJson? hnull hread fun m ↦ Message.ordered_of_ofJson?
  · intro p hp
    rw [Option.mem_def.mp hp] at htool
    obtain ⟨v, -, hnull, hread⟩ := Json.optional_eq_some_some_iff.mp htool
    exact p.ordered_of_ofJson? hnull hread fun _ _ ↦ trivial

/-- Where no key is repeated, payloads that have been taken for the wrong shape have the wrong
shape. -/
theorem isJudged_of_distinct (h : ofJson? room j = some c) (hj : j.Distinct) : c.IsJudged := by
  obtain ⟨_, _, _, _, message, tool, _, _, _, _, hslots, -, -, -, -, hmessage, htool, -⟩ :=
    ofJson?_eq_some_iff.mp h
  constructor
  · intro p hp
    rw [Option.mem_def.mp hp] at hmessage
    obtain ⟨v, rfl, -, hread⟩ := Json.optional_eq_some_some_iff.mp hmessage
    have hv : v.Distinct := (Json.partOf_of_mem_slots? hslots (by simp)).distinct hj
    exact p.isJudged_of_distinct hread hv (Message.lasting_hasShape Json.keepsForm_normal)
      fun _ ↦ Message.exists_ofJson?_iff
  · intro p hp
    rw [Option.mem_def.mp hp] at htool
    obtain ⟨v, rfl, -, hread⟩ := Json.optional_eq_some_some_iff.mp htool
    have hv : v.Distinct := (Json.partOf_of_mem_slots? hslots (by simp)).distinct hj
    exact p.isJudged_of_distinct hread hv (ToolUpdate.lasting_hasShape Json.keepsForm_normal)
      fun _ ↦ ToolUpdate.exists_ofJson?_iff

theorem partOf_throttledDelay {d : Float} (hd : d ∈ c.throttledDelay) :
    Json.PartOf (.number (.float d)) c.toJson := by
  rw [toJson_eq]
  exact Json.partOf_written
    (e := ("event_loop_throttled_delay", c.throttledDelay.map fun d ↦ .number (.float d)))
      (by simp)
    (Option.mem_map_of_mem _ hd)

theorem exists_delay (hnumbers : c.toJson.Renumbered) :
    ∃ delay, Json.optional Json.asFloat
      ((c.throttledDelay.map fun d ↦ .number (.float d)).map Json.again) = some delay := by
  cases hd : c.throttledDelay with
  | none => exact ⟨none, rfl⟩
  | some d =>
    obtain ⟨n, hn⟩ := (hnumbers.part (partOf_throttledDelay hd)).reread _ .number
    refine ⟨some n.toFloat, ?_⟩
    rw [Option.map_some, Option.map_some, Json.again_eq hn]
    rfl

/-- A callback is read from what is written for it if its numbers are read as numbers.  Nothing but
numbers and payloads can have changed. -/
theorem exists_kept (hc : c.Ordered) (hsound : c.toJson.sound room = true)
    (hnumbers : c.toJson.Renumbered)
    (hint : ∀ i, Occurs (.int i) c.toJson → Json.Bounded (.int i)) :
    ∃ message tool delay, ofJson? room c.toJson.again =
        some { c with message := message, tool := tool, throttledDelay := delay } ∧
      Payload.Kept Message.toJson Message.HasShape c.message message ∧
      Payload.Kept ToolUpdate.toJson ToolUpdate.HasShape c.tool tool := by
  obtain ⟨message, hmessage, hkeptMessage⟩ := Payload.exists_kept hc.message
    (fun p hp ↦ (partOf_message hp).sound hsound) (fun p hp ↦ hnumbers.part (partOf_message hp))
    (fun p hp i hi ↦ hint i ((partOf_message hp).occurs hi))
    (fun m hm ↦ (Message.faithful (hc.message _ hm) ((partOf_message hm).sound hsound)).read_eq)
    (fun m ↦ by simp [Message.toJson]) (fun _ ↦ Message.exists_ofJson?_iff)
    (Message.lasting_hasShape Json.keepsForm_again)
  obtain ⟨tool, htool, hkeptTool⟩ := Payload.exists_kept hc.tool
    (fun p hp ↦ (partOf_tool hp).sound hsound) (fun p hp ↦ hnumbers.part (partOf_tool hp))
    (fun p hp i hi ↦ hint i ((partOf_tool hp).occurs hi)) (fun u _ ↦ (u.faithful _).read_eq)
    (fun u ↦ by simp [ToolUpdate.toJson]) (fun _ ↦ ToolUpdate.exists_ofJson?_iff)
    (ToolUpdate.lasting_hasShape Json.keepsForm_again)
  obtain ⟨delay, hdelay⟩ := exists_delay hnumbers
  refine ⟨message, tool, delay, ?_, hkeptMessage, hkeptTool⟩
  rw [toJson_eq] at hnumbers ⊢
  rw [Json.again_written hnumbers]
  have htext : ∀ o : Option String,
      Json.optional Json.asString ((o.map Json.string).map Json.again) = some o := by
    rintro (_ | s) <;> rfl
  have hconsole : Json.optional Console.ofJson? ((c.console.map Console.toJson).map Json.again) =
      some c.console := by
    have hagain : (c.console.map Console.toJson).map Json.again = c.console.map Console.toJson := by
      cases c.console <;> rfl
    rw [hagain]
    exact c.faithful_console.read_eq
  exact ofJson?_eq_some_iff.mpr ⟨_, _, _, _, _, _, _, _, _, _,
    Json.slots?_written rfl (by decide), htext _, htext _, rfl, rfl, hmessage, htool, rfl, rfl,
    hdelay, hconsole⟩

end Callback

end AgentConsole
