import AgentConsole.Proofs.Presenter.Cue

/-!
# What a presenter tracks

A machine over cues.  Its state is what a presenter tracks: the running tools, the one whose spinner
it holds, and how many displays have been opened.  A cue changes the state (`Tracking.step`) and
makes some calls (`Tracking.calls`), and neither knows of outcomes.

* `Tracking.play`, `Tracking.trace` : the state after a list of cues, and the calls that they make.
* `Tracking.find?_step` : what a cue does to the entry of a tool.
* `Tracking.find?_play` : cues about other tools leave an entry alone.
-/

namespace AgentConsole

/-- The line that sums up a tool that has ended at the given time. -/
def Invocation.summary (now : Nat) (e : Ending) (i : Invocation) : String :=
  let seconds := secondsText (secondsOf (now - i.startedAt))
  match e with
  | .succeeded => i.name ++ " completed in " ++ seconds ++ "s"
  | .failed => i.name ++ " failed after " ++ seconds ++ "s"

/-- What a presenter tracks, and what its calls depend on. -/
structure Tracking where
  notifies : Bool
  spinner : Option Nat
  current : Option ToolId
  tools : Tools
  /-- How many displays have been opened. -/
  opened : Nat

namespace Tracking

/-- A presenter that has handled nothing, in a world with so many displays. -/
def new (notifies : Bool) (opened : Nat) : Tracking :=
  { notifies, spinner := none, current := none, tools := [], opened }

/-! ## The state after a cue -/

/-- Turns to the tool of an input, unless it is the current one. -/
def turn (now : Nat) (u : ToolInput) (t : Tracking) : Tracking :=
  if t.current = some u.id then t
  else
    { t with
      spinner := some (t.opened + 1)
      current := some u.id
      tools := t.tools.insert u.id (.start u.name now)
      opened := t.opened + 1 }

/-- Takes note of the size of an input. -/
def observe (u : ToolInput) (t : Tracking) : Tracking :=
  match t.tools.find? u.id with
  | none => t
  | some i =>
    if i.largest < u.size then
      { t with tools := t.tools.insert u.id { i with largest := u.size } }
    else t

/-- Lets go of a tool that has ended, and of the spinner at hand. -/
def conclude (id : ToolId) (t : Tracking) : Tracking :=
  match t.tools.find? id with
  | none => t
  | some _ => { t with spinner := none, current := none, tools := t.tools.erase id }

/-- The state after a cue. -/
def step : Cue → Tracking → Tracking
  | .indicate _, t => { t with opened := t.opened + 1 }
  | .write _ _ _, t | .throttle _ _, t | .halt, t | .announce _, t => t
  | .input now u, t => (t.turn now u).observe u
  | .result _ id _, t => t.conclude id

/-! ## The calls of a cue -/

/-- A call to the spinner at hand. -/
def spinnerCalls (act : SpinnerAct) (t : Tracking) : List Call :=
  (t.spinner.map (.spinner · act)).toList

/-- The calls of turning to a tool. -/
def turnCalls (u : ToolInput) (t : Tracking) : List Call :=
  if t.current = some u.id then []
  else
    t.spinnerCalls .stop ++
      [.openSpinner (t.opened + 1),
        .spinner (t.opened + 1) (.start (u.name ++ ": Preparing..."))]

/-- The calls of taking note of an input. -/
def observeCalls (u : ToolInput) (t : Tracking) : List Call :=
  match t.tools.find? u.id with
  | none => []
  | some i =>
    if i.largest < u.size then
      t.spinnerCalls (.update (i.name ++ ": " ++ toString u.size ++ " chars"))
    else []

/-- The calls for a tool that has ended. -/
def concludeCalls (now : Nat) (id : ToolId) (e : Ending) (t : Tracking) : List Call :=
  match t.tools.find? id with
  | none => []
  | some i =>
    t.spinnerCalls (Stage.finalAct e (i.summary now e)) ++
      if t.notifies then [.notify i.name (i.summary now e)] else []

/-- The calls that a cue makes. -/
def calls : Cue → Tracking → List Call
  | .indicate console, t =>
    [.openIndicator (t.opened + 1) console,
      .indicator (t.opened + 1) (.start "retrieving memories...")]
  | .write kind text endLine, _ => [.stream kind text endLine]
  | .throttle console delay, t => t.spinnerCalls .stop ++ [.throttle console delay]
  | .halt, t => t.spinnerCalls .stop
  | .input now u, t => t.turnCalls u ++ (t.turn now u).observeCalls u
  | .announce name, t => t.spinnerCalls (.info ("Starting " ++ name ++ "..."))
  | .result now id e, t => t.concludeCalls now id e

theorem mem_spinnerCalls_iff {t : Tracking} {act : SpinnerAct} {c : Call} :
    c ∈ t.spinnerCalls act ↔ ∃ n, t.spinner = some n ∧ .spinner n act = c := by
  simp [spinnerCalls]

/-! ## Runs -/

/-- The state after a list of cues. -/
def play : List Cue → Tracking → Tracking
  | [], t => t
  | q :: rest, t => (t.step q).play rest

/-- The calls that a list of cues makes. -/
def trace : List Cue → Tracking → List Call
  | [], _ => []
  | q :: rest, t => t.calls q ++ (t.step q).trace rest

@[simp] theorem play_nil (t : Tracking) : t.play [] = t := rfl

@[simp] theorem play_cons (t : Tracking) (q : Cue) (rest : List Cue) :
    t.play (q :: rest) = (t.step q).play rest := rfl

@[simp] theorem trace_nil (t : Tracking) : t.trace [] = [] := rfl

@[simp] theorem trace_cons (t : Tracking) (q : Cue) (rest : List Cue) :
    t.trace (q :: rest) = t.calls q ++ (t.step q).trace rest := rfl

theorem play_append (t : Tracking) (front rest : List Cue) :
    t.play (front ++ rest) = (t.play front).play rest := by
  induction front generalizing t with
  | nil => rfl
  | cons q front ih => exact ih (t.step q)

theorem trace_append (t : Tracking) (front rest : List Cue) :
    t.trace (front ++ rest) = t.trace front ++ (t.play front).trace rest := by
  induction front generalizing t with
  | nil => rfl
  | cons q front ih => simp [ih]

/-- Every call of a list of cues is a call of one of them, in the state that the cues before it have
left. -/
theorem exists_split_of_mem_trace {t : Tracking} {cues : List Cue} {c : Call}
    (h : c ∈ t.trace cues) :
    ∃ front q rest, cues = front ++ q :: rest ∧ c ∈ (t.play front).calls q := by
  induction cues generalizing t with
  | nil => cases h
  | cons q rest ih =>
    rcases List.mem_append.mp h with h | h
    · exact ⟨[], q, rest, rfl, h⟩
    · obtain ⟨front, q', rest', rfl, hc⟩ := ih h
      exact ⟨q :: front, q', rest', rfl, hc⟩

theorem exists_of_mem_trace {t : Tracking} {cues : List Cue} {c : Call} (h : c ∈ t.trace cues) :
    ∃ q ∈ cues, ∃ t' : Tracking, c ∈ t'.calls q := by
  obtain ⟨front, q, rest, rfl, hc⟩ := exists_split_of_mem_trace h
  exact ⟨q, List.mem_append_right _ List.mem_cons_self, _, hc⟩

/-! ## The entry of a tool -/

theorem turn_of_eq {t : Tracking} {u : ToolInput} (now : Nat) (h : t.current = some u.id) :
    t.turn now u = t := if_pos h

theorem turn_current (t : Tracking) (now : Nat) (u : ToolInput) :
    (t.turn now u).current = some u.id := by
  by_cases hc : t.current = some u.id
  · rw [turn_of_eq now hc, hc]
  · simp [turn, hc]

/-- Taking note of an input changes nothing but the entries. -/
theorem observe_eq (t : Tracking) (u : ToolInput) : ∃ tools, t.observe u = { t with tools } := by
  unfold observe
  split
  · exact ⟨t.tools, rfl⟩
  · split
    · exact ⟨_, rfl⟩
    · exact ⟨t.tools, rfl⟩

@[simp] theorem observe_spinner (t : Tracking) (u : ToolInput) :
    (t.observe u).spinner = t.spinner := by
  obtain ⟨tools, h⟩ := t.observe_eq u
  rw [h]

@[simp] theorem observe_current (t : Tracking) (u : ToolInput) :
    (t.observe u).current = t.current := by
  obtain ⟨tools, h⟩ := t.observe_eq u
  rw [h]

@[simp] theorem observe_opened (t : Tracking) (u : ToolInput) :
    (t.observe u).opened = t.opened := by
  obtain ⟨tools, h⟩ := t.observe_eq u
  rw [h]

/-- After an input its tool is the current one. -/
@[simp] theorem step_input_current (t : Tracking) (now : Nat) (u : ToolInput) :
    (t.step (.input now u)).current = some u.id := by
  rw [step, observe_current, turn_current]

/-- Displays are only ever opened. -/
theorem opened_le_step (t : Tracking) (q : Cue) : t.opened ≤ (t.step q).opened := by
  cases q with
  | indicate console => exact Nat.le_succ _
  | input now u =>
    rw [step, observe_opened, turn]
    split
    · exact Nat.le_refl _
    · exact Nat.le_succ _
  | result now id e =>
    rw [step, conclude]
    split <;> exact Nat.le_refl _
  | write kind text endLine | throttle console delay | halt | announce name => exact Nat.le_refl _

theorem opened_le_play (t : Tracking) (cues : List Cue) : t.opened ≤ (t.play cues).opened := by
  induction cues generalizing t with
  | nil => exact Nat.le_refl _
  | cons q rest ih => exact Nat.le_trans (opened_le_step t q) (ih (t.step q))

theorem find?_turn (t : Tracking) (now : Nat) (u : ToolInput) (id : ToolId) :
    (t.turn now u).tools.find? id =
      if id = u.id ∧ t.current ≠ some u.id then some (.start u.name now)
      else t.tools.find? id := by
  by_cases hc : t.current = some u.id
  · simp [turn, hc]
  · simp [turn, hc, Tools.find?_insert]

/-- An entry takes note of the input of its tool. -/
theorem find?_observe (t : Tracking) (u : ToolInput) (id : ToolId) :
    (t.observe u).tools.find? id =
      (t.tools.find? id).map fun i ↦ if id = u.id then (i.observe u.size).2 else i := by
  by_cases hid : id = u.id
  · subst hid
    cases hf : t.tools.find? u.id with
    | none => simp [observe, hf]
    | some i =>
      by_cases hs : i.largest < u.size
      · simp [observe, hf, hs, Tools.find?_insert, Invocation.observe]
      · simp [observe, hf, hs, Invocation.observe]
  · have hmap : (t.tools.find? id).map (fun i ↦ if id = u.id then (i.observe u.size).2 else i) =
        t.tools.find? id := by simp [hid]
    rw [hmap]
    unfold observe
    split
    · rfl
    · split
      · simp [Tools.find?_insert, hid]
      · rfl

/-- There is nothing to let go of where a tool has no entry. -/
theorem conclude_of_find?_eq_none {t : Tracking} {id : ToolId} (h : t.tools.find? id = none) :
    t.conclude id = t := by
  rw [conclude, h]

theorem conclude_of_find?_eq_some {t : Tracking} {id : ToolId} {i : Invocation}
    (h : t.tools.find? id = some i) :
    t.conclude id = { t with spinner := none, current := none, tools := t.tools.erase id } := by
  rw [conclude, h]

theorem concludeCalls_of_find?_eq_none {t : Tracking} {id : ToolId}
    (h : t.tools.find? id = none) (now : Nat) (e : Ending) : t.concludeCalls now id e = [] := by
  rw [concludeCalls, h]

theorem find?_conclude (t : Tracking) (ended id : ToolId) :
    (t.conclude ended).tools.find? id = if id = ended then none else t.tools.find? id := by
  cases hended : t.tools.find? ended with
  | none =>
    rw [conclude_of_find?_eq_none hended]
    split
    · rename_i hid
      rw [hid, hended]
    · rfl
  | some i =>
    rw [conclude_of_find?_eq_some hended]
    exact Tools.find?_erase _ _ _

/-- A cue about no tool changes no more than the number of displays. -/
theorem step_of_tool?_eq_none {q : Cue} (h : q.tool? = none) (t : Tracking) :
    ∃ n, t.step q = { t with opened := n } := by
  cases q with
  | indicate console => exact ⟨t.opened + 1, rfl⟩
  | write kind text endLine => exact ⟨t.opened, rfl⟩
  | throttle console delay => exact ⟨t.opened, rfl⟩
  | halt => exact ⟨t.opened, rfl⟩
  | announce name => exact ⟨t.opened, rfl⟩
  | input now u => simp [Cue.tool?] at h
  | result now id e => simp [Cue.tool?] at h

/-- Cues about no tool change no more than the number of displays. -/
theorem play_of_forall_tool?_eq_none {cues : List Cue} (h : ∀ q ∈ cues, q.tool? = none)
    (t : Tracking) : ∃ n, t.play cues = { t with opened := n } := by
  induction cues generalizing t with
  | nil => exact ⟨t.opened, rfl⟩
  | cons q rest ih =>
    obtain ⟨n, hn⟩ := step_of_tool?_eq_none (h q List.mem_cons_self) t
    obtain ⟨m, hm⟩ := ih (fun q hq ↦ h q (List.mem_cons_of_mem _ hq)) (t.step q)
    exact ⟨m, by rw [play_cons, hm, hn]⟩

/-- A cue about another tool leaves an entry alone. -/
theorem find?_step {q : Cue} {id : ToolId} (h : q.tool? ≠ some id) (t : Tracking) :
    (t.step q).tools.find? id = t.tools.find? id := by
  cases q with
  | input now u =>
    have hid : id ≠ u.id := fun he ↦ h (by rw [he]; rfl)
    simp [step, find?_observe, find?_turn, hid]
  | result now ended e =>
    have hid : id ≠ ended := fun he ↦ h (by rw [he]; rfl)
    simp [step, find?_conclude, hid]
  | indicate console => rfl
  | write kind text endLine => rfl
  | throttle console delay => rfl
  | halt => rfl
  | announce name => rfl

/-- Cues about other tools leave an entry alone. -/
theorem find?_play {cues : List Cue} {id : ToolId} (h : ∀ q ∈ cues, q.tool? ≠ some id)
    (t : Tracking) : (t.play cues).tools.find? id = t.tools.find? id := by
  induction cues generalizing t with
  | nil => rfl
  | cons q rest ih =>
    rw [play_cons, ih (fun q hq ↦ h q (List.mem_cons_of_mem _ hq)),
      find?_step (h q List.mem_cons_self)]

/-- The input of the current tool can only make its largest input larger. -/
theorem find?_step_input_of_eq {t : Tracking} {now : Nat} {u : ToolInput} {i : Invocation}
    (hc : t.current = some u.id) (hi : t.tools.find? u.id = some i) :
    (t.step (.input now u)).tools.find? u.id = some (i.observe u.size).2 := by
  simp [step, turn_of_eq now hc, find?_observe, hi]

/-- The input of another tool leaves it with a new entry, whatever was known of it. -/
theorem observe_turn_of_ne {t : Tracking} (now : Nat) {u : ToolInput}
    (hc : t.current ≠ some u.id) :
    ((t.turn now u).observe u).tools =
      (t.turn now u).tools.insert u.id ⟨u.name, now, u.size⟩ := by
  have hf : (t.turn now u).tools.find? u.id = some (.start u.name now) := by
    simp [find?_turn, hc]
  simp [observe, hf, Invocation.start, u.size_pos]

theorem find?_step_input_of_ne {t : Tracking} (now : Nat) {u : ToolInput}
    (hc : t.current ≠ some u.id) :
    (t.step (.input now u)).tools.find? u.id = some ⟨u.name, now, u.size⟩ := by
  rw [step, observe_turn_of_ne now hc, Tools.find?_insert, if_pos rfl]

end Tracking

end AgentConsole
