import AgentConsole.Presenter.Handle

/-!
# Cues

A callback is handled in eight steps, and each of them asks first whether the callback has anything
for it.  What is left of a callback after these questions is a list of *cues*, in the order in which
they are taken: an indicator is shown, text is written, a tool has more input, a tool has ended.

Two things that a callback brings about are no cues.  An indicator is updated and stopped only where
one is held, and whether one is held hangs on how its start has ended.  Everything else is in the
list, so that a run over cues says what a presenter tracks and calls for without a word about
outcomes (`Stage.follows_run` in `AgentConsole/Proofs/Presenter/Performance.lean`).

* `Callback.cues` : the cues of a callback.
* `Callback.input_mem_cues_iff`, `Callback.result_mem_cues_iff` : which of them are about a tool.
-/

namespace AgentConsole

/-! ## The input of a tool -/

/-- Input that counts: the tool is known by identifier and name, and there is some input. -/
structure ToolInput where
  id : ToolId
  name : String
  input : String
  nonempty : input ≠ ""

/-- The size of the input, in characters. -/
def ToolInput.size (u : ToolInput) : Nat := u.input.toList.length

theorem ToolInput.size_pos (u : ToolInput) : 0 < u.size :=
  List.length_pos_iff.mpr fun hnil ↦ u.nonempty (String.toList_eq_nil_iff.mp hnil)

/-- The input of an update, if it counts. -/
def ToolUpdate.input? (u : ToolUpdate) : Option ToolInput :=
  if h : u.input = "" then none
  else
    match u.id, u.name with
    | some id, some name => some ⟨id, name, u.input, h⟩
    | _, _ => none

/-! ## Cues -/

/-- What a callback has a presenter do. -/
inductive Cue where
  /-- An indicator is opened and started. -/
  | indicate (console : Console)
  | write (kind : StreamKind) (text : String) (endLine : Bool)
  | throttle (console : Console) (delay : Float)
  /-- The spinner is stopped, but kept. -/
  | halt
  /-- A tool has more input. -/
  | input (now : Nat) (u : ToolInput)
  /-- The assistant asks for a tool. -/
  | announce (name : String)
  /-- A tool has ended. -/
  | result (now : Nat) (id : ToolId) (ending : Ending)

/-- The tool whose entry a cue may change. -/
def Cue.tool? : Cue → Option ToolId
  | .indicate _ | .write _ _ _ | .throttle _ _ | .halt | .announce _ => none
  | .input _ u => some u.id
  | .result _ id _ => some id

/-- The cue of a result, which must name its tool. -/
def ToolResult.cue? (now : Nat) (r : ToolResult) : Option Cue :=
  r.id.map (.result now · (.ofResult r))

namespace Callback

/-- The input of a callback, if it counts. -/
def input? (c : Callback) : Option ToolInput :=
  match c.tool with
  | some (.valid u) => u.input?
  | _ => none

/-- The names of the tools that a callback announces. -/
def announced (c : Callback) : List String :=
  match c.message with
  | some (.valid m) => if m.role = .assistant then m.calls.filterMap (·.name) else []
  | _ => []

/-- The results that a callback brings, which only a message of the user does. -/
def userResults (c : Callback) : List ToolResult :=
  match c.message with
  | some (.valid m) => if m.role = .user then m.results else []
  | _ => []

/-- A callback with the input of a tool. -/
def ofInput (id : ToolId) (name input : String) : Callback :=
  { empty with tool := some (.valid ⟨some id, some name, input⟩) }

/-- A callback with results of tools, which have all succeeded. -/
def ofResults (ids : List ToolId) : Callback :=
  { empty with message := some (.valid ⟨.user, ids.map (Block.ofResult · .success)⟩) }

/-- The cues of the first six steps. -/
def plainCues (c : Callback) : List Cue :=
  (if c.initLoop then [.indicate (c.console.getD .stdout)] else []) ++
    (c.reasoning?.map (.write .reasoning · false)).toList ++
    (match c.throttle?, c.console with
      | some delay, some console => [.throttle console delay]
      | _, _ => []) ++
    (if c.forceStop then [.halt] else []) ++
    (c.output?.map (.write .output · c.complete)).toList

/-- The cue of the seventh step. -/
def inputCues (now : Nat) (c : Callback) : List Cue :=
  (c.input?.map (.input now)).toList

/-- The cues of the eighth step. -/
def messageCues (now : Nat) (c : Callback) : List Cue :=
  c.announced.map .announce ++ c.userResults.filterMap (·.cue? now)

/-- The cues of a callback, in order. -/
def cues (now : Nat) (c : Callback) : List Cue :=
  c.plainCues ++ c.inputCues now ++ c.messageCues now

/-- The first six steps are about no tool. -/
theorem tool?_of_mem_plainCues {c : Callback} {q : Cue} (h : q ∈ c.plainCues) :
    q.tool? = none := by
  simp only [plainCues, List.mem_append] at h
  rcases h with (((h | h) | h) | h) | h
  · obtain ⟨-, h⟩ := List.mem_ite_nil_right.mp h
    obtain rfl := List.mem_singleton.mp h
    rfl
  · obtain ⟨text, -, rfl⟩ := Option.map_eq_some_iff.mp (Option.mem_toList.mp h)
    rfl
  · split at h
    · obtain rfl := List.mem_singleton.mp h
      rfl
    · cases h
  · obtain ⟨-, h⟩ := List.mem_ite_nil_right.mp h
    obtain rfl := List.mem_singleton.mp h
    rfl
  · obtain ⟨text, -, rfl⟩ := Option.map_eq_some_iff.mp (Option.mem_toList.mp h)
    rfl

/-- The eighth step brings no input. -/
theorem input_notMem_messageCues (now time : Nat) (c : Callback) (u : ToolInput) :
    Cue.input time u ∉ c.messageCues now := by
  simp [messageCues, ToolResult.cue?]

theorem result_mem_messageCues_iff {now time : Nat} {c : Callback} {id : ToolId} {e : Ending} :
    Cue.result time id e ∈ c.messageCues now ↔
      time = now ∧ ∃ r ∈ c.userResults, r.id = some id ∧ e = .ofResult r := by
  simp only [messageCues, List.mem_append, List.mem_map, List.mem_filterMap, ToolResult.cue?,
    Option.map_eq_some_iff, reduceCtorEq, and_false, exists_false, false_or, Cue.result.injEq]
  constructor
  · rintro ⟨r, hr, x, hx, rfl, rfl, rfl⟩
    exact ⟨rfl, r, hr, hx, rfl⟩
  · rintro ⟨rfl, r, hr, hx, rfl⟩
    exact ⟨r, hr, id, hx, rfl, rfl, rfl⟩

/-- The only input among the cues is that of the callback. -/
theorem input_mem_cues_iff {now time : Nat} {c : Callback} {u : ToolInput} :
    Cue.input time u ∈ c.cues now ↔ time = now ∧ c.input? = some u := by
  have hp : Cue.input time u ∉ c.plainCues := fun h ↦ by
    simpa [Cue.tool?] using tool?_of_mem_plainCues h
  simp only [cues, List.mem_append, hp, input_notMem_messageCues, inputCues, false_or, or_false,
    Option.mem_toList, Option.map_eq_some_iff, Cue.input.injEq]
  constructor
  · rintro ⟨v, hv, rfl, rfl⟩
    exact ⟨rfl, hv⟩
  · rintro ⟨rfl, hv⟩
    exact ⟨u, hv, rfl, rfl⟩

/-- The results among the cues are those of the callback that name their tool. -/
theorem result_mem_cues_iff {now time : Nat} {c : Callback} {id : ToolId} {e : Ending} :
    Cue.result time id e ∈ c.cues now ↔
      time = now ∧ ∃ r ∈ c.userResults, r.id = some id ∧ e = .ofResult r := by
  have hp : Cue.result time id e ∉ c.plainCues := fun h ↦ by
    simpa [Cue.tool?] using tool?_of_mem_plainCues h
  have hi : Cue.result time id e ∉ c.inputCues now := by simp [inputCues]
  simp only [cues, List.mem_append, hp, hi, result_mem_messageCues_iff, false_or]

end Callback

/-- The cues of a delivery. -/
def Delivery.cues (x : Delivery) : List Cue := x.callback.cues x.time

end AgentConsole
