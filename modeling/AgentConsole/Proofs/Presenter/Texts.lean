import AgentConsole.Proofs.Json.Reread
import AgentConsole.Proofs.Presenter.SpinnerTrace
import AgentConsole.Proofs.Terminal.Strip

/-!
# The texts that a presenter shows

A presenter shows texts of its callbacks as they are, or as parts of a label.  The name of a tool is
kept until the tool has ended, so that a label may show a name that an earlier callback has brought.
All the rest of a label is the presenter's own: some fixed words, and numbers.

So if no callback has an escape character in a text that may be shown (`Callback.Bare`), then nor
has any call (`Stage.bare_of_handle`), as long as the names that are kept have none.

* `Tracking.bare_play`, `Tracking.bare_of_mem_trace` : names that are kept, and calls.
* `Stage.bare_handle`, `Stage.bare_of_handle` : the same for a callback.
-/

namespace AgentConsole

/-! ## Texts without escape characters -/

/-- The texts of a callback that may be shown have no escape characters. -/
structure Callback.Bare (c : Callback) : Prop where
  reasoningText : ∀ text ∈ c.reasoningText, Paint.Bare text
  data : ∀ text ∈ c.data, Paint.Bare text
  tool : ∀ u, c.tool = some (.valid u) → ∀ name ∈ u.name, Paint.Bare name
  calls : ∀ m, c.message = some (.valid m) → ∀ call ∈ m.calls, ∀ name ∈ call.name,
    Paint.Bare name

/-- The names of tools have no escape characters. -/
def Tools.Bare (tools : Tools) : Prop := ∀ id, ∀ i ∈ tools.find? id, Paint.Bare i.name

/-- The text of a cue that may be shown has no escape characters. -/
def Cue.Bare : Cue → Prop
  | .write _ text _ => Paint.Bare text
  | .input _ u => Paint.Bare u.name
  | .announce name => Paint.Bare name
  | .indicate _ | .throttle _ _ | .halt | .result _ _ _ => True

/-- The last line of a spinner has no escape characters. -/
def SpinnerAct.Bare : SpinnerAct → Prop
  | .succeed label | .fail label | .info label => Paint.Bare label
  | .start _ | .update _ | .stop => True

/-- The texts that a call writes have no escape characters. -/
def Call.Bare : Call → Prop
  | .spinner _ act => act.Bare
  | .stream _ text _ => Paint.Bare text
  | .notify title message => Paint.Bare title ∧ Paint.Bare message
  | .openIndicator _ _ | .indicator _ _ | .openSpinner _ | .throttle _ _ => True

theorem Paint.bare_of_isWord {s : String} (h : Json.IsWord s) : Paint.Bare s :=
  fun hesc ↦ Bool.false_ne_true (h _ hesc)

theorem bare_writeFloat (x : Float) : Paint.Bare (writeFloat .plain x) :=
  Paint.bare_of_isWord (Json.isWord_writeFloat (by decide) x)

theorem bare_secondsText (seconds : Float) : Paint.Bare (secondsText seconds) := by
  unfold secondsText
  dsimp only
  split
  · exact bare_writeFloat seconds
  · exact Paint.bare_append.mpr ⟨bare_writeFloat seconds, by decide⟩

theorem Ending.bare_message {name : String} (h : Paint.Bare name) (seconds : Float) (e : Ending) :
    Paint.Bare (e.message name seconds) := by
  cases e with
  | succeeded => simp [message, h, bare_secondsText]; decide
  | failed => simp [message, h, bare_secondsText]; decide

/-! ## Cues -/

theorem Callback.Bare.input {c : Callback} (h : c.Bare) {u : ToolInput} (hu : c.input? = some u) :
    Paint.Bare u.name := by
  unfold Callback.input? at hu
  split at hu
  · rename_i update hupdate
    unfold ToolUpdate.input? at hu
    split at hu
    · cases hu
    · split at hu
      · rename_i id name hid hname
        cases hu
        exact h.tool update hupdate name hname
      · cases hu
  · cases hu

theorem Callback.Bare.announced {c : Callback} (h : c.Bare) :
    ∀ name ∈ c.announced, Paint.Bare name := by
  intro name hname
  unfold Callback.announced at hname
  split at hname
  · rename_i m hm
    obtain ⟨-, hname⟩ := List.mem_ite_nil_right.mp hname
    obtain ⟨call, hcall, hcallName⟩ := List.mem_filterMap.mp hname
    exact h.calls m hm call hcall name hcallName
  · cases hname

/-- The cues of a callback have the texts of the callback. -/
theorem Callback.Bare.cues {c : Callback} (h : c.Bare) (now : Nat) :
    ∀ q ∈ c.cues now, q.Bare := by
  intro q hq
  rw [Callback.cues, List.mem_append, List.mem_append] at hq
  rcases hq with (hq | hq) | hq
  · simp only [Callback.plainCues, List.mem_append] at hq
    rcases hq with (((hq | hq) | hq) | hq) | hq
    · obtain ⟨-, hq⟩ := List.mem_ite_nil_right.mp hq
      obtain rfl := List.mem_singleton.mp hq
      trivial
    · obtain ⟨text, htext, rfl⟩ := Option.map_eq_some_iff.mp (Option.mem_toList.mp hq)
      exact h.reasoningText text (Option.filter_eq_some_iff.mp htext).1
    · split at hq
      · obtain rfl := List.mem_singleton.mp hq
        trivial
      · cases hq
    · obtain ⟨-, hq⟩ := List.mem_ite_nil_right.mp hq
      obtain rfl := List.mem_singleton.mp hq
      trivial
    · obtain ⟨text, htext, rfl⟩ := Option.map_eq_some_iff.mp (Option.mem_toList.mp hq)
      exact h.data text (Option.filter_eq_some_iff.mp htext).1
  · obtain ⟨u, hu, rfl⟩ := Option.map_eq_some_iff.mp (Option.mem_toList.mp hq)
    exact h.input hu
  · rcases List.mem_append.mp hq with hq | hq
    · obtain ⟨name, hname, rfl⟩ := List.mem_map.mp hq
      exact h.announced name hname
    · obtain ⟨r, -, hr⟩ := List.mem_filterMap.mp hq
      obtain ⟨id, -, rfl⟩ := Option.map_eq_some_iff.mp hr
      trivial

/-! ## Tracking -/

namespace Tracking

variable {t : Tracking} {q : Cue}

theorem bare_turn (h : t.tools.Bare) {u : ToolInput} (hu : Paint.Bare u.name) (now : Nat) :
    (t.turn now u).tools.Bare := by
  intro id i hi
  rw [find?_turn] at hi
  split at hi
  · cases hi
    exact hu
  · exact h id i hi

/-- To take note of an input changes no name. -/
theorem bare_observe (h : t.tools.Bare) (u : ToolInput) : (t.observe u).tools.Bare := by
  intro id i hi
  rw [find?_observe] at hi
  obtain ⟨j, hj, rfl⟩ := Option.map_eq_some_iff.mp hi
  have hname : (j.observe u.size).2.name = j.name := by
    unfold Invocation.observe
    split
    · rfl
    · rfl
  split
  · rw [hname]
    exact h id j hj
  · exact h id j hj

theorem bare_step (h : t.tools.Bare) (hq : q.Bare) : (t.step q).tools.Bare := by
  cases q with
  | input now u => exact bare_observe (bare_turn h hq now) u
  | result now ended e =>
    intro id i hi
    rw [step, find?_conclude] at hi
    split at hi
    · cases hi
    · exact h id i hi
  | indicate console | write kind text endLine | throttle console delay | halt | announce name =>
    exact h

theorem bare_play (h : t.tools.Bare) {cues : List Cue} (hcues : ∀ q ∈ cues, q.Bare) :
    (t.play cues).tools.Bare := by
  induction cues generalizing t with
  | nil => exact h
  | cons q rest ih =>
    obtain ⟨hq, hrest⟩ := List.forall_mem_cons.mp hcues
    exact ih (bare_step h hq) hrest

theorem bare_of_mem_spinnerCalls {act : SpinnerAct} {c : Call} (hc : c ∈ t.spinnerCalls act)
    (h : act.Bare) :
    c.Bare := by
  obtain ⟨n, -, rfl⟩ := mem_spinnerCalls_iff.mp hc
  exact h

theorem bare_of_mem_concludeCalls (h : t.tools.Bare) {now : Nat} {id : ToolId}
    {e : Ending} {c : Call} (hc : c ∈ t.concludeCalls now id e) : c.Bare := by
  unfold concludeCalls at hc
  split at hc
  · cases hc
  · rename_i i hi
    have hsummary : Paint.Bare (i.summary now e) := Ending.bare_message (h id i hi) _ e
    rcases List.mem_append.mp hc with hc | hc
    · refine bare_of_mem_spinnerCalls hc ?_
      cases e with
      | succeeded => exact hsummary
      | failed => exact hsummary
    · obtain ⟨-, hc⟩ := List.mem_ite_nil_right.mp hc
      obtain rfl := List.mem_singleton.mp hc
      exact ⟨h id i hi, hsummary⟩

theorem bare_of_mem_calls (h : t.tools.Bare) (hq : q.Bare) {c : Call} (hc : c ∈ t.calls q) :
    c.Bare := by
  cases q with
  | indicate console =>
    simp only [calls, List.mem_cons, List.not_mem_nil, or_false] at hc
    rcases hc with rfl | rfl
    · trivial
    · trivial
  | write kind text endLine =>
    obtain rfl := List.mem_singleton.mp hc
    exact hq
  | throttle console delay =>
    rcases List.mem_append.mp hc with hc | hc
    · exact bare_of_mem_spinnerCalls hc trivial
    · obtain rfl := List.mem_singleton.mp hc
      trivial
  | halt => exact bare_of_mem_spinnerCalls hc trivial
  | input now u =>
    -- The label of a spinner that runs is not written.
    by_cases hturn : t.current = some u.id
    · rcases calls_input_of_eq_cases hturn now with hnone | ⟨label, hupdate⟩
      · rw [hnone] at hc
        cases hc
      · rw [hupdate] at hc
        exact bare_of_mem_spinnerCalls hc trivial
    · rw [calls_input_of_ne hturn, List.mem_append] at hc
      rcases hc with hc | hc
      · exact bare_of_mem_spinnerCalls hc trivial
      · simp only [List.mem_cons, List.not_mem_nil, or_false] at hc
        rcases hc with rfl | rfl | rfl
        · trivial
        · trivial
        · trivial
  | announce name =>
    have hlabel : Paint.Bare (startingLabel name) :=
      Paint.bare_append.mpr ⟨Paint.bare_append.mpr ⟨by decide, hq⟩, by decide⟩
    exact bare_of_mem_spinnerCalls hc hlabel
  | result now id e => exact bare_of_mem_concludeCalls h hc

theorem bare_of_mem_trace (h : t.tools.Bare) {cues : List Cue}
    (hcues : ∀ q ∈ cues, q.Bare) {c : Call} (hc : c ∈ t.trace cues) : c.Bare := by
  obtain ⟨front, q, rest, rfl, hq⟩ := exists_split_of_mem_trace hc
  obtain ⟨hfront, hrest⟩ := List.forall_mem_append.mp hcues
  exact bare_of_mem_calls (bare_play h hfront) (hrest q List.mem_cons_self) hq

end Tracking

/-! ## Stages -/

namespace Stage

variable {World : Type} {s : Stage World} {c : Callback}

/-- The names that are kept are those that a callback has brought, or that were kept before. -/
theorem bare_handle (d : Display World) (h : s.presenter.tools.Bare) (hc : c.Bare) (now : Nat) :
    (s.handle d now c).presenter.tools.Bare := by
  have htracking := (follows_handle d s now c).tracking
  have htools : (s.handle d now c).presenter.tools = (s.tracking.play (c.cues now)).tools :=
    congrArg Tracking.tools htracking
  rw [htools]
  exact Tracking.bare_play (t := s.tracking) h (hc.cues now)

/-- A callback writes texts of its own, and names that were kept. -/
theorem bare_of_handle {d : Display World} {now : Nat} {new : List Event}
    (events : (s.handle d now c).events = s.events ++ new) (h : s.presenter.tools.Bare)
    (hc : c.Bare) :
    ∀ e ∈ new, e.call.Bare := by
  intro e he
  by_cases hsteady : e.call.isSteady = true
  · have htrace := (follows_handle d s now c).filter_new events
    have hmem : e.call ∈ s.tracking.trace (c.cues now) := by
      rw [← htrace, List.mem_filter]
      exact ⟨List.mem_map_of_mem he, hsteady⟩
    exact Tracking.bare_of_mem_trace (t := s.tracking) h (hc.cues now) hmem
  · -- Only indicators are called for otherwise, and they write nothing.
    obtain ⟨call, outcome⟩ := e
    cases call with
    | indicator n act => trivial
    | _ => exact absurd rfl hsteady

end Stage

end AgentConsole
