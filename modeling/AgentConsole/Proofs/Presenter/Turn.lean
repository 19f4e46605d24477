import AgentConsole.Proofs.Presenter.Entry
import AgentConsole.Proofs.Presenter.Matching

/-!
# Turns to a tool

A presenter turns to a tool when there is input of it while another tool is the current one, or none
is.  It does so for the first input of a tool, but also when it comes back to one that it has been
tracking all along, and then what was known of the tool is forgotten.  So what an entry says goes
back to the last turn and no further: the name and the time are those of that input, and the size is
the largest from there on.  The same is true of what is said once the tool has ended.

* `Tracking.LastTurn` : the last turn to a tool in a list of cues; `Tracking.LastTurn.unique` :
  there is but one.
* `Tracking.exists_lastTurn` : an entry is what the last turn and the input since have made of it.
* `Stage.entry_of_last_turn` : the same of a run, and what is said of a result.
-/

namespace AgentConsole

/-! ## Sizes -/

/-- The size of the input of a tool. -/
def Cue.size? (id : ToolId) : Cue → Option Nat
  | .input _ u => if u.id = id then some u.size else none
  | .indicate _ | .write _ _ _ | .throttle _ _ | .halt | .announce _ | .result _ _ _ => none

/-- The sizes of the inputs of a tool, in order. -/
def Cue.sizes (id : ToolId) (cues : List Cue) : List Nat := cues.filterMap (Cue.size? id)

namespace Cue

variable {id : ToolId} {q : Cue}

theorem size?_eq_none (h : q.tool? ≠ some id) : q.size? id = none := by
  cases q with
  | input now u => exact if_neg fun hid ↦ h (congrArg some hid)
  | _ => rfl

theorem sizes_cons_other (h : q.size? id = none) (rest : List Cue) :
    sizes id (q :: rest) = sizes id rest := by
  simp [sizes, h]

theorem sizes_cons_input (now : Nat) (u : ToolInput) (rest : List Cue) :
    sizes u.id (.input now u :: rest) = u.size :: sizes u.id rest := by
  simp [sizes, size?]

theorem sizes_append (front rest : List Cue) :
    sizes id (front ++ rest) = sizes id front ++ sizes id rest :=
  List.filterMap_append

end Cue

/-- An entry is what the input `u` of its tool at time `now`, which starts it, and the input since
have made of it. -/
structure Invocation.DatesFrom (i : Invocation) (id : ToolId) (now : Nat) (u : ToolInput)
    (since : List Cue) :
    Prop where
  name : i.name = u.name
  startedAt : i.startedAt = now
  largest : (u.size :: Cue.sizes id since).max? = some i.largest

namespace Invocation.DatesFrom

variable {i : Invocation} {id : ToolId} {now : Nat} {u : ToolInput} {since : List Cue}

theorem first (id : ToolId) (now : Nat) (u : ToolInput) :
    (Invocation.mk u.name now u.size).DatesFrom id now u [] :=
  ⟨rfl, rfl, rfl⟩

theorem append_other {q : Cue} (h : i.DatesFrom id now u since) (hq : q.size? id = none) :
    i.DatesFrom id now u (since ++ [q]) := by
  refine ⟨h.name, h.startedAt, ?_⟩
  rw [Cue.sizes_append, Cue.sizes_cons_other hq]
  exact (List.append_nil (Cue.sizes id since)).symm ▸ h.largest

theorem append_input {v : ToolInput} (h : i.DatesFrom v.id now u since) (time : Nat) :
    (i.observe v.size).2.DatesFrom v.id now u (since ++ [.input time v]) := by
  have hcontinues := Continues.observe i v.size
  refine ⟨hcontinues.name.trans h.name, hcontinues.startedAt.trans h.startedAt, ?_⟩
  have hlargest := h.largest
  rw [List.max?_cons', Option.some.injEq] at hlargest
  rw [Cue.sizes_append, Cue.sizes_cons_input, List.max?_cons', List.foldl_append, hlargest,
    observe_largest]
  rfl

/-- What is said of a result counts from the turn. -/
theorem summary_eq (h : i.DatesFrom id now u since) (time : Nat) (e : Ending) :
    i.summary time e =
      let seconds := secondsText (secondsOf (time - now))
      match e with
      | .succeeded => u.name ++ " completed in " ++ seconds ++ "s"
      | .failed => u.name ++ " failed after " ++ seconds ++ "s" := by
  cases e <;> simp only [Invocation.summary, h.name, h.startedAt]

end Invocation.DatesFrom

namespace Tracking

/-! ## Turns -/

/-- A cue turns to a tool: it is input of the tool, and the tool is not the current one. -/
def TurnsTo (id : ToolId) (t : Tracking) : Cue → Prop
  | .input _ u => u.id = id ∧ t.current ≠ some id
  | .indicate _ | .write _ _ _ | .throttle _ _ | .halt | .announce _ | .result _ _ _ => False

/-- No cue of a list turns to a tool. -/
def Unturned (id : ToolId) : List Cue → Tracking → Prop
  | [], _ => True
  | q :: rest, t => ¬ t.TurnsTo id q ∧ (t.step q).Unturned id rest

/-- In a list of cues the last turn to a tool is the input `u` at time `now`, and the cues `since`
come after it. -/
def LastTurn (id : ToolId) (t : Tracking) (cues : List Cue) (now : Nat) (u : ToolInput)
    (since : List Cue) :
    Prop :=
  ∃ front, cues = front ++ .input now u :: since ∧ (t.play front).TurnsTo id (.input now u) ∧
    ((t.play front).step (.input now u)).Unturned id since

variable {t : Tracking} {id : ToolId} {cues since : List Cue} {now : Nat} {u : ToolInput} {q : Cue}

theorem not_turnsTo_of_tool?_ne (h : q.tool? ≠ some id) (t : Tracking) : ¬ t.TurnsTo id q := by
  cases q with
  | input now u => exact fun hturn ↦ h (congrArg some hturn.1)
  | _ => exact not_false

theorem Unturned.append_singleton (h : t.Unturned id cues) (hq : ¬ (t.play cues).TurnsTo id q) :
    t.Unturned id (cues ++ [q]) := by
  induction cues generalizing t with
  | nil => exact ⟨hq, trivial⟩
  | cons p rest ih => exact ⟨h.1, ih h.2 hq⟩

/-- Where no cue of a list is a turn, none in its midst is. -/
theorem Unturned.not_turnsTo {front rest : List Cue} (h : t.Unturned id (front ++ q :: rest)) :
    ¬ (t.play front).TurnsTo id q := by
  induction front generalizing t with
  | nil => exact h.1
  | cons p front ih => exact ih h.2

theorem LastTurn.append_singleton (h : t.LastTurn id cues now u since)
    (hq : ¬ (t.play cues).TurnsTo id q) : t.LastTurn id (cues ++ [q]) now u (since ++ [q]) := by
  obtain ⟨front, rfl, hturn, hsince⟩ := h
  rw [play_append, play_cons] at hq
  exact ⟨front, by simp, hturn, hsince.append_singleton hq⟩

/-- No turn comes after the last one. -/
theorem LastTurn.not_after {front m : List Cue} {time : Nat} {v : ToolInput}
    (hsince : ((t.play front).step (.input now u)).Unturned id (m ++ .input time v :: since)) :
    ¬ (t.play (front ++ .input now u :: m)).TurnsTo id (.input time v) := by
  rw [play_append]
  exact hsince.not_turnsTo

/-- There is but one last turn. -/
theorem LastTurn.unique {time : Nat} {v : ToolInput} {since' : List Cue}
    (h : t.LastTurn id cues now u since) (h' : t.LastTurn id cues time v since') :
    now = time ∧ u = v ∧ since = since' := by
  obtain ⟨front, rfl, hturn, hsince⟩ := h
  obtain ⟨front', hcues, hturn', hsince'⟩ := h'
  -- If the two are apart, one of them comes after the other.
  rcases List.append_eq_append_iff.mp hcues with ⟨m, rfl, hm⟩ | ⟨m, rfl, hm⟩
  all_goals
    rcases m with _ | ⟨p, m⟩
  · obtain ⟨⟨rfl, rfl⟩, rfl⟩ := by simpa using hm
    exact ⟨rfl, rfl, rfl⟩
  · obtain ⟨rfl, rfl⟩ := List.cons.inj hm
    exact absurd hturn' (not_after hsince)
  · obtain ⟨⟨rfl, rfl⟩, rfl⟩ := by simpa using hm
    exact ⟨rfl, rfl, rfl⟩
  · obtain ⟨rfl, rfl⟩ := List.cons.inj hm
    exact absurd hturn (not_after hsince')

/-- An entry is what the last turn to its tool and the input since have made of it. -/
theorem exists_lastTurn (hnone : t.tools.find? id = none) {cues : List Cue} {i : Invocation}
    (hi : (t.play cues).tools.find? id = some i) :
    ∃ now u since, t.LastTurn id cues now u since ∧ i.DatesFrom id now u since := by
  -- From the end: the last cue is a turn itself, or leaves the last turn where it was.
  induction cues using List.reverseRecOn generalizing i with
  | nil =>
    rw [play_nil, hnone] at hi
    cases hi
  | append_singleton cues q ih =>
    rw [play_append, play_cons, play_nil] at hi
    by_cases htool : q.tool? = some id
    · cases q with
      | input time v =>
        obtain rfl : v.id = id := Option.some.inj htool
        by_cases hc : (t.play cues).current = some v.id
        · rw [step, turn_of_eq time hc, find?_observe] at hi
          obtain ⟨j, hj, rfl⟩ := Option.map_eq_some_iff.mp hi
          obtain ⟨now, u, since, hlast, hdates⟩ := ih hj
          rw [if_pos rfl]
          exact ⟨now, u, _, hlast.append_singleton fun hturn ↦ hturn.2 hc,
            hdates.append_input time⟩
        · rw [find?_step_input_of_ne time hc, Option.some.injEq] at hi
          subst hi
          exact ⟨time, v, [], ⟨cues, rfl, ⟨rfl, hc⟩, trivial⟩, .first v.id time v⟩
      | result time ended e =>
        obtain rfl : ended = id := Option.some.inj htool
        rw [step, find?_conclude, if_pos rfl] at hi
        cases hi
      | _ => cases htool
    · rw [find?_step htool] at hi
      obtain ⟨now, u, since, hlast, hdates⟩ := ih hi
      exact ⟨now, u, _, hlast.append_singleton (not_turnsTo_of_tool?_ne htool _),
        hdates.append_other (Cue.size?_eq_none htool)⟩

end Tracking

namespace Stage

variable {World : Type}

/-- After a run of a new presenter the entry of a tool has the name given by the input that has last
turned to the tool, and the time of that input, and the largest size from that input on.

When a tool with an entry ends in the midst of the run, what is said of it is the name and the time
that has passed since the last turn to it before; where the clock has been set back, no time has
passed. -/
theorem entry_of_last_turn (d : Display World) (deliveries : List Delivery) (notifies : Bool)
    (opened : Nat) (w : World) (id : ToolId) :
    let t := Tracking.new notifies opened
    let cues := deliveries.flatMap Delivery.cues
    let s := Stage.run d deliveries (.enter (.new notifies) opened w)
    (∀ i, s.presenter.tools.find? id = some i →
      ∃ now u since, t.LastTurn id cues now u since ∧ i.name = u.name ∧ i.startedAt = now ∧
        (u.size :: Cue.sizes id since).max? = some i.largest) ∧
    ∀ front time e rest, cues = front ++ .result time id e :: rest →
      ((t.play front).tools.find? id).isSome →
      ∃ now u since, t.LastTurn id front now u since ∧
        let seconds := secondsText (secondsOf (time - now))
        let summary := match e with
          | .succeeded => u.name ++ " completed in " ++ seconds ++ "s"
          | .failed => u.name ++ " failed after " ++ seconds ++ "s"
        let last := match e with
          | .succeeded => SpinnerAct.succeed summary
          | .failed => .fail summary
        s.steadyCalls = t.trace front ++
          ((t.play front).spinnerCalls last ++
            if notifies then [.notify u.name summary] else []) ++
          ((t.play front).step (.result time id e)).trace rest := by
  intro t cues s
  have hfollows := follows_run d deliveries (.enter (.new notifies) opened w)
  have hnone : t.tools.find? id = none := rfl
  refine ⟨fun i hi ↦ ?_, fun front time e rest hcues htracked ↦ ?_⟩
  · have htools : s.presenter.tools = (t.play cues).tools :=
      congrArg Tracking.tools hfollows.tracking
    rw [htools] at hi
    obtain ⟨now, u, since, hlast, hdates⟩ := Tracking.exists_lastTurn hnone hi
    exact ⟨now, u, since, hlast, hdates.name, hdates.startedAt, hdates.largest⟩
  · obtain ⟨i, hi⟩ := Option.isSome_iff_exists.mp htracked
    obtain ⟨now, u, since, hlast, hdates⟩ := Tracking.exists_lastTurn hnone hi
    have hcalls := Tracking.calls_result_of_find?_eq hi time e
    rw [hdates.summary_eq, hdates.name, Tracking.play_notifies] at hcalls
    refine ⟨now, u, since, hlast, ?_⟩
    have hsteady : s.steadyCalls = t.trace cues := hfollows.steadyCalls
    rw [hsteady, hcues, Tracking.trace_append, Tracking.trace_cons, hcalls]
    cases e <;> exact (List.append_assoc _ _ _).symm

/-- A tool is returned to under another name, has more input under a third one, and ends three
seconds after the return. -/
theorem entry_of_last_turn_after_return :
    let before :=
      [⟨0, .ofInput "A" "shell" "0123456789"⟩, ⟨1000000000, .ofInput "B" "editor" "x"⟩,
      ⟨2000000000, .ofInput "A" "bash" "01"⟩, ⟨4000000000, .ofInput "A" "sh" "café"⟩]
    let t := Tracking.new true 0
    let front := before.flatMap Delivery.cues
    let s := Stage.run .always before (.enter (.new true) 0 ())
    let s' :=
      Stage.run .always (before ++ [⟨5000000000, .ofResults ["A"]⟩]) (.enter (.new true) 0 ())
    s.presenter.tools.find? "A" = some ⟨"bash", 2000000000, 4⟩ ∧
      (∃ now u since, t.LastTurn "A" front now u since ∧ "bash" = u.name ∧
        2000000000 = now ∧
        (u.size :: Cue.sizes "A" since).max? = some 4) ∧
      s'.steadyCalls = t.trace front ++
        [.spinner 3 (.succeed "bash completed in 3.0s"),
          .notify "bash" "bash completed in 3.0s"] := by
  intro before t front s s'
  have hi : s.presenter.tools.find? "A" = some ⟨"bash", 2000000000, 4⟩ := by decide
  have htracked : ((t.play front).tools.find? "A").isSome := by decide
  have hspinner : ((Tracking.new true 0).play front).spinner = some 3 := by decide
  have hlast : t.LastTurn "A" front 2000000000 ⟨"A", "bash", "01", by decide⟩
      [.input 4000000000 ⟨"A", "sh", "café", by decide⟩] :=
    ⟨(before.take 2).flatMap Delivery.cues, rfl, ⟨rfl, by decide⟩,
      fun hturn ↦ hturn.2 (by decide), trivial⟩
  have hsummary : "bash completed in 3.0s" =
      "bash" ++ " completed in " ++ secondsText (secondsOf (5000000000 - 2000000000)) ++ "s" := by
    decide +kernel
  obtain ⟨now, u, since, hlast', hsteady⟩ :=
    (entry_of_last_turn .always (before ++ [⟨5000000000, .ofResults ["A"]⟩]) true 0 () "A").2
      front 5000000000 .succeeded [] rfl htracked
  obtain ⟨rfl, rfl, -⟩ := hlast.unique hlast'
  refine ⟨hi, (entry_of_last_turn .always before true 0 () "A").1 _ hi, ?_⟩
  rw [hsummary]
  simpa [Tracking.spinnerCalls, hspinner] using hsteady

end Stage

end AgentConsole
