import AgentConsole.Proofs.Presenter.Performance

/-!
# Entries of running tools

The entry of a tool says since when it runs and how large its input has grown.  One would like it to
last from the first input of the tool to its result, but it does not: the input of a tool that is
not the current one starts a new entry, also where there is one already.  So an entry goes on until
its tool ends or is returned to (`Tracking.Uninterrupted`), and that is also how long the sizes that
are shown grow and the time that is reported counts from the first input.

* `Stage.entry_continues_iff` : when a callback lets an entry go on.
-/

namespace AgentConsole

/-- A later entry of the same tool: it still counts from the same time, and has seen no less
input. -/
structure Invocation.Continues (j i : Invocation) : Prop where
  name : j.name = i.name
  startedAt : j.startedAt = i.startedAt
  largest : i.largest ≤ j.largest

namespace Invocation.Continues

theorem refl (i : Invocation) : i.Continues i := ⟨rfl, rfl, Nat.le_refl _⟩

theorem trans {i j k : Invocation} (h : k.Continues j) (h' : j.Continues i) : k.Continues i where
  name := h.name.trans h'.name
  startedAt := h.startedAt.trans h'.startedAt
  largest := Nat.le_trans h'.largest h.largest

/-- Taking note of an input lets an entry go on. -/
theorem observe (i : Invocation) (size : Nat) : (i.observe size).2.Continues i := by
  refine ⟨?_, ?_, ?_⟩
  · unfold Invocation.observe
    split <;> rfl
  · unfold Invocation.observe
    split <;> rfl
  · simp only [observe_largest]
    exact Nat.le_max_left _ _

/-- Entries that count from the same time report the same. -/
theorem summary_eq {i j : Invocation} (h : j.Continues i) (now : Nat) (e : Ending) :
    j.summary now e = i.summary now e := by
  simp only [Invocation.summary, h.name, h.startedAt]

end Invocation.Continues

namespace Tracking

/-- A cue interrupts the entry of a tool: it brings the result of the tool, or input of it while
another tool is the current one. -/
def Interrupts (id : ToolId) (t : Tracking) : Cue → Prop
  | .input _ u => u.id = id ∧ t.current ≠ some id
  | .result _ ended _ => ended = id
  | .indicate _ | .write _ _ _ | .throttle _ _ | .halt | .announce _ => False

/-- No cue of a list interrupts the entry of a tool. -/
def Uninterrupted (id : ToolId) : List Cue → Tracking → Prop
  | [], _ => True
  | q :: rest, t => ¬ t.Interrupts id q ∧ (t.step q).Uninterrupted id rest

/-- A cue that does not interrupt an entry lets it go on. -/
theorem continues_step {t : Tracking} {id : ToolId} {i : Invocation} {q : Cue}
    (hi : t.tools.find? id = some i) (hq : ¬ t.Interrupts id q) :
    ∃ j, (t.step q).tools.find? id = some j ∧ j.Continues i := by
  by_cases htool : q.tool? = some id
  · cases q with
    | input now u =>
      obtain rfl : u.id = id := Option.some.inj htool
      have hc : t.current = some u.id := by simpa [Interrupts] using hq
      exact ⟨_, find?_step_input_of_eq hc hi, .observe i u.size⟩
    | result now ended e =>
      obtain rfl : ended = id := Option.some.inj htool
      exact absurd rfl hq
    | _ => cases htool
  · exact ⟨i, (find?_step htool t).trans hi, .refl i⟩

/-- An entry goes on as long as it is not interrupted. -/
theorem continues_play {t : Tracking} {id : ToolId} {i : Invocation} {cues : List Cue}
    (hi : t.tools.find? id = some i) (h : t.Uninterrupted id cues) :
    ∃ j, (t.play cues).tools.find? id = some j ∧ j.Continues i := by
  induction cues generalizing t i with
  | nil => exact ⟨i, hi, .refl i⟩
  | cons q rest ih =>
    obtain ⟨j, hj, hji⟩ := continues_step hi h.1
    obtain ⟨k, hk, hkj⟩ := ih hj h.2
    exact ⟨k, hk, hkj.trans hji⟩

/-- An entry depends on the input of a callback alone, unless the callback brings the result. -/
theorem find?_play_cues (t : Tracking) (now : Nat) {c : Callback} {id : ToolId}
    (hc : ∀ r ∈ c.userResults, r.id ≠ some id) :
    (t.play (c.cues now)).tools.find? id = (t.play (c.inputCues now)).tools.find? id := by
  have hmessage : ∀ q ∈ c.messageCues now, q.tool? ≠ some id := by
    intro q hq htool
    cases q with
    | input time u => exact c.input_notMem_messageCues now time u hq
    | result time ended e =>
      obtain rfl : ended = id := Option.some.inj htool
      obtain ⟨-, r, hr, hid, -⟩ := Callback.result_mem_messageCues_iff.mp hq
      exact hc r hr hid
    | _ => cases htool
  -- The plain cues change the number of displays, on which no entry depends.
  obtain ⟨n, hn⟩ := play_of_forall_tool?_eq_none (fun _ ↦ Callback.tool?_of_mem_plainCues) t
  rw [Callback.cues, play_append, play_append, find?_play hmessage, hn, Callback.inputCues]
  cases c.input? with
  | none => rfl
  | some u => simp [step, find?_observe, find?_turn]

/-- After a callback without its result a tool still has an entry.  This counts from the same time
and has seen no less input if and only if the callback does not return to the tool, or does so at
the very time from which the entry counts and with no less input. -/
theorem kept_play_cues_iff {t : Tracking} {now : Nat} {c : Callback} {id : ToolId} {i : Invocation}
    (hi : t.tools.find? id = some i) (hc : ∀ r ∈ c.userResults, r.id ≠ some id) :
    ∃ j, (t.play (c.cues now)).tools.find? id = some j ∧
      (j.startedAt = i.startedAt ∧ i.largest ≤ j.largest ↔
        ∀ u, c.input? = some u → u.id = id → t.current ≠ some id →
          now = i.startedAt ∧ i.largest ≤ u.size) := by
  rw [find?_play_cues t now hc, Callback.inputCues]
  cases hu : c.input? with
  | none => exact ⟨i, hi, by simp⟩
  | some u =>
    simp only [Option.map_some, Option.toList_some, play_cons, play_nil, Option.some.injEq,
      forall_eq']
    by_cases hreturn : t.Interrupts id (.input now u)
    -- The new entry counts from now, and has seen this input alone.
    · obtain ⟨rfl, hne⟩ := hreturn
      exact ⟨_, find?_step_input_of_ne now hne, by simp [hne]⟩
    · obtain ⟨j, hj, hji⟩ := continues_step hi hreturn
      refine ⟨j, hj, ?_⟩
      have hvacuous : u.id = id → t.current ≠ some id → False :=
        fun hid hne ↦ hreturn ⟨hid, hne⟩
      exact ⟨fun _ hid hne ↦ (hvacuous hid hne).elim,
        fun _ ↦ ⟨hji.startedAt, hji.largest⟩⟩

/-- While an entry goes on, a larger input is shown with its size. -/
theorem calls_input_of_eq {t : Tracking} {now : Nat} {u : ToolInput} {j : Invocation}
    (hc : t.current = some u.id) (hj : t.tools.find? u.id = some j) :
    t.calls (.input now u) =
      if j.largest < u.size then
        t.spinnerCalls (.update (j.name ++ ": " ++ toString u.size ++ " chars"))
      else [] := by
  simp [calls, turnCalls, hc, turn_of_eq now hc, observeCalls, hj]

/-- What a result makes a presenter say of a tool. -/
theorem calls_result_of_find?_eq {t : Tracking} {id : ToolId} {i : Invocation}
    (hi : t.tools.find? id = some i) (now : Nat) (e : Ending) :
    t.calls (.result now id e) =
      t.spinnerCalls (Stage.finalAct e (i.summary now e)) ++
        if t.notifies then [.notify i.name (i.summary now e)] else [] := by
  simp [calls, concludeCalls, hi]

end Tracking

namespace Stage

variable {World : Type}

/-- In a state that a new presenter can reach a tool has an entry.

A callback that does not bring its result lets it have one.  This counts from the same time and has
seen no less input if and only if the callback does not return to the tool from another one, or does
so at the very time from which the entry counts and with no less input.

As long as no return and no result interrupts the entry, only larger inputs of the tool are shown,
and what is said of its result counts from the time at which the tool was first seen. -/
theorem entry_continues_iff (d : Display World) (deliveries : List Delivery) (notifies : Bool)
    (opened : Nat) (w : World) {id : ToolId} {i : Invocation}
    (hi : (Stage.run d deliveries (.enter (.new notifies) opened w)).presenter.tools.find? id =
      some i) :
    let s := Stage.run d deliveries (.enter (.new notifies) opened w)
    (∀ now c, (∀ r ∈ c.userResults, r.id ≠ some id) →
      ∃ j, (s.handle d now c).presenter.tools.find? id = some j ∧
        (j.startedAt = i.startedAt ∧ i.largest ≤ j.largest ↔
          ∀ u, c.input? = some u → u.id = id → s.presenter.current ≠ some id →
            now = i.startedAt ∧ i.largest ≤ u.size)) ∧
    ∀ more front q rest, more.flatMap Delivery.cues = front ++ q :: rest →
      s.tracking.Uninterrupted id front →
      let t := s.tracking.play front
      (Stage.run d more s).steadyCalls =
        s.steadyCalls ++ s.tracking.trace front ++ t.calls q ++ (t.step q).trace rest ∧
      ∃ j, t.tools.find? id = some j ∧ j.Continues i ∧
        (∀ now u, q = .input now u → u.id = id → t.current = some id →
          t.calls q =
            if j.largest < u.size then
              t.spinnerCalls (.update (j.name ++ ": " ++ toString u.size ++ " chars"))
            else []) ∧
        ∀ now e, q = .result now id e →
          t.calls q =
            t.spinnerCalls (finalAct e (i.summary now e)) ++
              if t.notifies then [.notify i.name (i.summary now e)] else [] := by
  intro s
  have htools : s.tracking.tools.find? id = some i := hi
  refine ⟨fun now c hc ↦ ?_, fun more front q rest hcues hfront ↦ ⟨?_, ?_⟩⟩
  · have htrack := (follows_handle d s now c).tracking
    have htools' : (s.handle d now c).presenter.tools =
        (s.tracking.play (c.cues now)).tools := congrArg Tracking.tools htrack
    rw [htools']
    exact Tracking.kept_play_cues_iff htools hc
  · rw [(follows_run d more s).steadyCalls, hcues, Tracking.trace_append, Tracking.trace_cons]
    simp only [List.append_assoc]
  · obtain ⟨j, hj, hji⟩ := Tracking.continues_play htools hfront
    refine ⟨j, hj, hji, ?_, ?_⟩
    · rintro now u rfl rfl hc
      exact Tracking.calls_input_of_eq hc hj
    · rintro now e rfl
      rw [Tracking.calls_result_of_find?_eq hj, hji.summary_eq, hji.name]

/-- A tool and then another one have had input, and now the second one has more. -/
theorem entry_continues_beside_other :
    let s := Stage.run .always
      [⟨0, .ofInput "A" "shell" "0123456789"⟩, ⟨1000000000, .ofInput "B" "editor" "x"⟩]
      (.enter (.new false) 0 ())
    s.presenter.tools.find? "A" = some ⟨"shell", 0, 10⟩ ∧
      ∃ j, (s.handle .always 2000000000 (.ofInput "B" "editor" "xy")).presenter.tools.find? "A" =
        some j ∧ j.startedAt = 0 ∧ 10 ≤ j.largest := by
  intro s
  have hi : s.presenter.tools.find? "A" = some ⟨"shell", 0, 10⟩ := by decide
  obtain ⟨j, hj, hkept⟩ :=
    (entry_continues_iff .always _ false 0 () hi).1 2000000000
      (.ofInput "B" "editor" "xy") (by decide)
  refine ⟨hi, j, hj, hkept.mpr ?_⟩
  intro u hu hid
  obtain rfl := Option.some.inj hu
  exact absurd hid (by decide)

/-- The same two tools, but now the first one is returned to, with less input than it has had.  Its
entry starts anew. -/
theorem entry_restarts_on_return :
    let s := Stage.run .always
      [⟨0, .ofInput "A" "shell" "0123456789"⟩, ⟨1000000000, .ofInput "B" "editor" "x"⟩]
      (.enter (.new false) 0 ())
    let c := Callback.ofInput "A" "shell" "01234"
    s.presenter.tools.find? "A" = some ⟨"shell", 0, 10⟩ ∧ c.userResults = [] ∧
      (s.handle .always 2000000000 c).presenter.tools.find? "A" =
        some ⟨"shell", 2000000000, 5⟩ := by
  decide

end Stage

end AgentConsole
