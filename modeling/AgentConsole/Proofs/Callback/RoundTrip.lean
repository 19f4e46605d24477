import AgentConsole.Proofs.Callback.Rewriting
import AgentConsole.Proofs.Callback.Source

/-!
# Recording callbacks

A recorded session is written line by line, one callback on each, and read by a source that looks at
lines only.  Two things must fit together: the text of a callback must stay on its line, and it must
be read as the callback.  The first holds of any callback.  The second does not: a number may be
read as its neighbour, and a payload that was taken for the wrong shape may have the right one after
all, once it has been put in order.  Where neither can happen the session is told again as it was.

* `CallbackSource.readings_write` : a recorded session of callbacks with well-formed payloads and
  integers.
* `Callback.read?_write_iff` : when exactly a callback that has been read is read again from its
  text, and what is read otherwise.
-/

namespace AgentConsole

open Json (Occurs Distinct Visible written)

namespace Callback

/-! ## Reading a callback again -/

theorem read?_write (c : Callback) :
    read? c.write = (Json.reread? c.toJson).bind (ofJson? Json.depthLimit) := by
  rw [read?, write, Json.parse?_text]

/-- A callback whose payloads have lost nothing is read again exactly if its numbers are and its
payloads of the wrong shape stay so. -/
theorem read?_write_eq_iff {c : Callback} (hc : c.Ordered)
    (hsound : c.toJson.sound Json.depthLimit = true) :
    read? c.write = some c ↔
      (∀ n, Occurs n c.toJson → Json.reread? (.number n) = some (.number n)) ∧
        c.IsJudged := by
  rw [read?_write, ← Json.reread?_eq_some_self_iff hsound, ← ofJson?_toJson_iff hc hsound]
  constructor
  · intro h
    obtain ⟨w, hw, hread⟩ := Option.bind_eq_some_iff.mp h
    have heq := eq_of_again hc hsound hw hread
    rw [heq] at hw hread
    exact ⟨hw, hread⟩
  · rintro ⟨hw, hread⟩
    rw [hw, Option.bind_some, hread]

/-- What becomes of a callback that has been read when its text is read.

It is the same callback exactly if two things hold.  Each floating-point number in it is read from
its own numeral; and no payload that was taken for the wrong shape has the right one in normal form,
which is so if the text repeats no key in an object.

Even where numbers are read as other ones, nothing but the delay and the payloads can change.
Payloads of the right shape have it again, and those of the wrong shape do not, unless they have it
in normal form; and a payload is the same if its own numbers are. -/
theorem read?_write_iff {s : String} {c : Callback} (h : read? s = some c) :
    (read? c.write = some c ↔
      (∀ x, Occurs (.float x) c.toJson →
        Json.parse? (Json.text (.number (.float x))) = some (.number (.float x))) ∧
      c.IsJudged) ∧
    (∀ j, Json.parse? s = some j → j.Distinct → c.IsJudged) ∧
    ((∀ x, Occurs (.float x) c.toJson →
        ∃ y, Json.parse? (Json.text (.number (.float x))) = some (.number (.float y))) →
      ∃ message tool delay,
        read? c.write =
          some { c with message := message, tool := tool, throttledDelay := delay } ∧
        Payload.Kept Message.toJson Message.HasShape c.message message ∧
        Payload.Kept ToolUpdate.toJson ToolUpdate.HasShape c.tool tool) := by
  obtain ⟨j, hj, hread⟩ := Option.bind_eq_some_iff.mp h
  have hrewrites := rewrites (by decide) hread
  have hordered := ordered_of_ofJson? hread
  have hint : ∀ i, Occurs (.int i) c.toJson → Json.Bounded (.int i) := by
    intro i hi
    obtain ⟨word, hword⟩ := Json.exists_word_of_occurs hj (hrewrites.occurs i hi)
    exact Json.bounded_of_word? hword
  refine ⟨?_, ?_, fun hfloat ↦ ?_⟩
  · rw [read?_write_eq_iff hordered hrewrites.sound]
    refine and_congr_left fun _ ↦ ⟨fun hall x hx ↦ ?_, fun hall n hn ↦ ?_⟩
    · rw [Json.parse?_text]
      exact hall _ hx
    · cases n with
      | float x =>
        rw [← Json.parse?_text]
        exact hall x hn
      | int i => exact Json.reread?_of_bounded (hint i hn)
  · intro j' hj' hdistinct
    rw [hj] at hj'
    cases hj'
    exact isJudged_of_distinct hread hdistinct
  · have hnumbers : c.toJson.Renumbered := by
      refine ⟨⟨_, hrewrites.sound⟩, fun n hn ↦ ?_⟩
      cases n with
      | float x =>
        obtain ⟨y, hy⟩ := hfloat x hn
        exact ⟨.float y, Json.parse?_text _ ▸ hy⟩
      | int i => exact ⟨.int i, Json.reread?_of_bounded (hint i hn)⟩
    rw [read?_write, Json.reread?_eq_again hnumbers, Option.bind_some]
    exact exists_kept hordered hrewrites.sound hnumbers hint

/-- A message without a proper role, given without repeated keys, is not one when it is read
again. -/
theorem read?_write_of_number_role :
    let c := { empty with message := some (.malformed (.object [("role", .number (.int 7))])) }
    read? "\x7b\"message\":\x7b\"role\":7\x7d\x7d" = some c ∧ read? c.write = some c := by
  intro c
  have hparse : Json.parse? "\x7b\"message\":\x7b\"role\":7\x7d\x7d" =
      some (.object [("message", .object [("role", .number (.int 7))])]) := by rfl
  have hread : read? "\x7b\"message\":\x7b\"role\":7\x7d\x7d" = some c := by
    rw [read?, hparse]
    rfl
  have hdistinct : Distinct (.object [("message", .object [("role", .number (.int 7))])]) := by
    refine .object (by simp) ?_
    simpa using Distinct.object (by simp) (by simpa using Distinct.number _)
  obtain ⟨hiff, hjudged, -⟩ := read?_write_iff hread
  refine ⟨hread, hiff.mpr ⟨?_, hjudged _ hparse hdistinct⟩⟩
  simp [c, toJson_eq, empty, Json.member, Payload.toJson]

/-! ## Callbacks that are not read again -/

/-- The number above `5e32` is read as another one. -/
theorem reread?_delay_ne : Json.reread? (.number (.float 5.0000000000000004e32)) ≠
    some (.number (.float 5.0000000000000004e32)) := by
  have hother : (Json.reread? (.number (.float 5.0000000000000004e32))).bind Json.asFloat ≠
      some 5.0000000000000004e32 := by decide +kernel
  intro h
  rw [h] at hother
  exact hother rfl

/-- Two texts of callbacks that are not read again.  In the first one a message gives its role
twice, and is a message as soon as the two are one.  In the second one the delay is read as a
neighbour of what it was. -/
theorem read?_write_ne :
    (∃ c, read? "\x7b\"message\":\x7b\"role\":\"user\",\"role\":\"user\"\x7d\x7d" = some c ∧
      read? c.write ≠ some c) ∧
    (∃ c, read? "\x7b\"event_loop_throttled_delay\":5e32\x7d" = some c ∧
      read? c.write ≠ some c) := by
  constructor
  · have hparse : Json.parse? "\x7b\"message\":\x7b\"role\":\"user\",\"role\":\"user\"\x7d\x7d" =
        some (.object
          [("message", .object [("role", .string "user"), ("role", .string "user")])]) := by rfl
    refine ⟨{ empty with message := some (.malformed (.object [("role", .string "user")])) },
      ?_, ?_⟩
    · rw [read?, hparse]
      rfl
    · have hread : ofJson? Json.depthLimit
            (toJson
              { empty with message := some (.malformed (.object [("role", .string "user")])) }) =
          some { empty with message := some (.valid ⟨.user, []⟩) } := by rfl
      have hagain : Json.reread?
            (toJson
              { empty with message := some (.malformed (.object [("role", .string "user")])) }) =
          some (toJson
            { empty with message := some (.malformed (.object [("role", .string "user")])) }) := by
        rfl
      rw [read?_write, hagain, Option.bind_some, hread]
      intro h
      cases h
  · have hdelay : (read? "\x7b\"event_loop_throttled_delay\":5e32\x7d").map (·.throttledDelay) =
        some (some 5.0000000000000004e32) := by decide +kernel
    obtain ⟨c, hc, hd⟩ := Option.map_eq_some_iff.mp hdelay
    obtain ⟨j, -, hread⟩ := Option.bind_eq_some_iff.mp hc
    refine ⟨c, hc, ?_⟩
    rw [Ne, read?_write_eq_iff (ordered_of_ofJson? hread) (rewrites (by decide) hread).sound]
    rintro ⟨hall, -⟩
    exact reread?_delay_ne (hall _ ((partOf_throttledDelay hd).occurs .number))

/-! ## Callbacks on lines -/

theorem visible_of_mem_write (c : Callback) : ∀ ch ∈ c.write.toList, Visible ch := by
  rw [write, Json.text, String.toList_ofList]
  exact Json.visible_of_mem_chars c.toJson

/-- Neither blanks around a text nor the lack of any text concern a callback that has been
written. -/
theorem trim_write (c : Callback) : Text.trim c.write = c.write := by
  obtain ⟨cs, hcs⟩ := Json.exists_chars_object (written _)
  rw [write, Json.text, toJson_eq, Text.trim, String.toList_ofList, hcs,
    Text.trimChars_of_ends (by decide) (by decide)]

theorem isBlank_write (c : Callback) : Text.isBlank c.write = false := by
  rw [← Bool.not_eq_true, Text.isBlank_iff_trim, trim_write]
  intro hempty
  obtain ⟨cs, hcs⟩ := Json.exists_chars_object (written _)
  rw [write, Json.text, toJson_eq, hcs] at hempty
  exact absurd (congrArg String.toList hempty) (by simp)

/-- A callback that is told again from what is recorded of it: payloads have the right shape, and
numbers are integers of 64 bits.  Values that are kept as they are are given by key, and all of it
nests no deeper than a text may. -/
structure Recordable (c : Callback) : Prop where
  throttledDelay : c.throttledDelay = none
  message : ∀ p ∈ c.message, ∃ m : Message, p = .valid m ∧ m.Ordered
  tool : ∀ p ∈ c.tool, ∃ u, p = .valid u
  integers : ∀ n, Occurs n c.toJson → ∃ i, n = .int i ∧ Json.Bounded (.int i)
  sound : c.toJson.sound Json.depthLimit = true

theorem Recordable.read?_write {c : Callback} (h : c.Recordable) : read? c.write = some c := by
  have hordered : c.Ordered := by
    constructor
    · intro p hp
      obtain ⟨m, rfl, hm⟩ := h.message p hp
      exact hm
    · intro p hp
      obtain ⟨u, rfl⟩ := h.tool p hp
      trivial
  refine (read?_write_eq_iff hordered h.sound).mpr ⟨fun n hn ↦ ?_, ?_, ?_⟩
  · obtain ⟨i, rfl, hi⟩ := h.integers n hn
    exact Json.reread?_of_bounded hi
  · intro p hp
    obtain ⟨m, rfl, -⟩ := h.message p hp
    trivial
  · intro p hp
    obtain ⟨u, rfl⟩ := h.tool p hp
    trivial

end Callback

namespace CallbackSource

open Callback

theorem contentOf_write {c : Callback} (h : read? c.write = some c) :
    contentOf (Text.encode c.write) = .callback c := by
  rw [contentOf, Text.decode?_encode]
  simp [isBlank_write, trim_write, h]

/-- Lines that all hold callbacks. -/
theorem readings_of_callbacks {cs : List Callback} {lines : List Bytes}
    (h : List.Forall₂ (fun line c ↦ contentOf line = .callback c) lines cs) (read : Nat) :
    readings ⟨lines, read, 0⟩ = cs.map (fun c ↦ ⟨.callback c, 0, []⟩) ++
      [⟨.finished, 0, []⟩] := by
  induction h generalizing read with
  | nil =>
    rw [readings]
    rfl
  | @cons line c lines cs hline _ ih =>
    have hnext :
        next ⟨line :: lines, read, 0⟩ = (.callback c, ⟨lines, read + 1, 0⟩, []) := by
      rw [next, nextFrom_cons, hline]
      rfl
    rw [readings]
    split
    · next c' rest numbers heq =>
      rw [hnext] at heq
      cases heq
      rw [ih]
      rfl
    · next hne heq =>
      rw [hnext] at heq
      cases heq
      exact (hne c rfl).elim

theorem encode_join (cs : List Callback) :
    Text.encode (String.join (cs.map fun c ↦ c.write ++ "\n")) =
      (cs.map fun c ↦ Text.encode c.write).flatMap (· ++ [10]) := by
  rw [Text.encode_join, List.flatMap_map, List.flatMap_map]
  refine List.flatMap_congr fun c _ ↦ ?_
  rw [Text.encode_append]
  rfl

/-- A recorded session is told again, one callback after the other and with nothing skipped.  The
text of a callback never holds a line break, whatever texts are in the callback. -/
theorem readings_write {cs : List Callback} (h : ∀ c ∈ cs, c.Recordable) :
    (∀ c : Callback, '\n' ∉ c.write.toList ∧ '\r' ∉ c.write.toList) ∧
    (ofBytes (Text.encode (String.join (cs.map fun c ↦ c.write ++ "\n")))).readings =
      cs.map (fun c ↦ ⟨.callback c, 0, []⟩) ++ [⟨.finished, 0, []⟩] := by
  have hbreak : ∀ c : Callback, '\n' ∉ c.write.toList ∧ '\r' ∉ c.write.toList := by
    intro c
    constructor
    · exact fun hmem ↦ absurd (visible_of_mem_write c _ hmem) (by decide)
    · exact fun hmem ↦ absurd (visible_of_mem_write c _ hmem) (by decide)
  refine ⟨hbreak, ?_⟩
  have hlines : Text.linesOf 10 13 (Text.encode (String.join (cs.map fun c ↦ c.write ++ "\n"))) =
      cs.map fun c ↦ Text.encode c.write := by
    rw [encode_join]
    refine Text.linesOf_flatMap fun line hline ↦ ?_
    obtain ⟨c, -, rfl⟩ := List.mem_map.mp hline
    rw [Text.mem_encode_iff (by decide), Text.mem_encode_iff (by decide)]
    exact hbreak c
  rw [ofBytes, hlines]
  refine readings_of_callbacks ?_ 0
  rw [List.forall₂_map_left_iff, List.forall₂_same]
  exact fun c hc ↦ contentOf_write (h c hc).read?_write

/-- A session of two callbacks.  The first one holds a line break and half of an object, the second
one a value with members, numbers and `null`. -/
theorem readings_write_of_two :
    let first := { Callback.empty with
      data := some "one\ntwo"
      tool := some (.valid ⟨some "t1", some "grep", "\x7b"⟩) }
    let second := { Callback.empty with
      message := some (.valid ⟨.assistant, [{ Block.empty with
        call := some ⟨some "t1", some "grep",
          .object [("limit", .number (.int 3)), ("path", .null)]⟩ }]⟩) }
    (ofBytes (Text.encode (String.join ([first, second].map fun c ↦ c.write ++ "\n")))).readings =
      [⟨.callback first, 0, []⟩, ⟨.callback second, 0, []⟩, ⟨.finished, 0, []⟩] := by
  intro first second
  have hfirst : first.Recordable := by
    refine ⟨rfl, by simp [first, Callback.empty], by simp [first], ?_, rfl⟩
    simp [first, toJson_eq, Callback.empty, Json.member, Payload.toJson, ToolUpdate.toJson_eq]
  have hsecond : second.Recordable := by
    have hinput : Json.Ordered (.object [("limit", .number (.int 3)), ("path", .null)]) := by
      refine .object (List.pairwise_pair.mpr (by decide)) ?_
      simpa using ⟨Json.Ordered.number _, Json.Ordered.null⟩
    refine ⟨rfl, ?_, by simp [second, Callback.empty], ?_, rfl⟩
    · rintro _ ⟨⟩
      refine ⟨_, rfl, List.forall_mem_singleton.mpr ⟨?_, by simp [Block.empty]⟩⟩
      rintro _ ⟨⟩
      exact hinput
    · simp [second, toJson_eq, Callback.empty, Json.member, Payload.toJson,
        Message.toJson, Role.toJson, Block.toJson, Block.empty, ToolCall.toJson]
      exact ⟨by decide, by decide⟩
  exact (readings_write (by simpa using ⟨hfirst, hsecond⟩)).2

end CallbackSource

end AgentConsole
