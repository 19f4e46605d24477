import AgentConsole.Proofs.Presenter.Repetition
import AgentConsole.Proofs.Presenter.SpinnerTrace
import AgentConsole.Proofs.Presenter.Turn
import Mathlib.Data.List.Basic

/-!
# The progress that a spinner shows

The spinner of a tool is created when the presenter turns to the tool, and shows progress for as
long as the tool is the current one.  In this time it may be stopped, text may be written and
results of unknown tools may come in, and none of it matters: the spinner is updated for every input
of its tool that is larger than all those before it, and for no other.  What has been seen of the
tool is kept in its entry, so this is a law that ties the spinner to the entry.  Input that is
delivered again changes nothing.

* `highs` : the sizes that are larger than all before them.
* `Tracking.Shows.updates_trace` : the updates of a spinner from some point on.
* `Stage.updates_of_spinner` : the updates of every spinner of a run, and what delivering input
  again comes to.
-/

namespace AgentConsole

/-! ## Sizes -/

/-- The sizes in a list that are larger than all that come before them, in the list or among the
earlier ones. -/
def highs (earlier : List Nat) : List Nat → List Nat
  | [] => []
  | size :: rest => (if ∀ x ∈ earlier, x < size then [size] else []) ++
    highs (earlier ++ [size]) rest

theorem lt_of_mem_highs {earlier sizes : List Nat} {x y : Nat} (hy : y ∈ highs earlier sizes)
    (hx : x ∈ earlier) : x < y := by
  induction sizes generalizing earlier with
  | nil => cases hy
  | cons size rest ih =>
    rcases List.mem_append.mp hy with hy | hy
    · obtain ⟨hall, hy⟩ := List.mem_ite_nil_right.mp hy
      obtain rfl := List.mem_singleton.mp hy
      exact hall x hx
    · exact ih hy (List.mem_append_left _ hx)

theorem pairwise_highs (earlier sizes : List Nat) : (highs earlier sizes).Pairwise (· < ·) := by
  induction sizes generalizing earlier with
  | nil => exact .nil
  | cons size rest ih =>
    refine List.pairwise_append.mpr ⟨?_, ih _, fun x hx y hy ↦ ?_⟩
    · split
      · exact List.pairwise_singleton _ _
      · exact .nil
    · obtain ⟨-, hx⟩ := List.mem_ite_nil_right.mp hx
      exact lt_of_mem_highs hy (List.mem_append_right _ hx)

/-- A size is larger than what an entry has seen if it is larger than all inputs since the turn. -/
theorem Invocation.DatesFrom.largest_lt_iff {i : Invocation} {id : ToolId} {now : Nat}
    {u : ToolInput} {since : List Cue} (h : i.DatesFrom id now u since) (size : Nat) :
    i.largest < size ↔ ∀ x ∈ u.size :: Cue.sizes id since, x < size := by
  obtain ⟨hmem, hmax⟩ := List.max?_eq_some_iff.mp h.largest
  exact ⟨fun hlt x hx ↦ Nat.lt_of_le_of_lt (hmax x hx) hlt, fun hall ↦ hall _ hmem⟩

theorem Cue.input_or_ne (q : Cue) :
    (∃ now u, q = .input now u) ∨ ∀ now u, q ≠ .input now u := by
  cases q with
  | input now u => exact .inl ⟨now, u, rfl⟩
  | _ => exact .inr fun now u h ↦ by cases h

theorem Cue.size?_of_ne_input {q : Cue} (h : ∀ now u, q ≠ .input now u) (id : ToolId) :
    q.size? id = none := by
  cases q with
  | input now u => exact absurd rfl (h now u)
  | _ => rfl

/-! ## Updates -/

/-- The label with which a call updates a spinner. -/
def Call.update? (n : Nat) : Call → Option String
  | .spinner m (.update label) => if m = n then some label else none
  | _ => none

theorem Call.update?_self (n : Nat) (label : String) :
    Call.update? n (.spinner n (.update label)) = some label :=
  if_pos rfl

/-- The labels with which a spinner is updated, in order. -/
def updates (n : Nat) (cs : List Call) : List String := cs.filterMap (Call.update? n)

theorem updates_append (n : Nat) (front rest : List Call) :
    updates n (front ++ rest) = updates n front ++ updates n rest :=
  List.filterMap_append

theorem updates_eq_nil {n : Nat} {cs : List Call} (h : ∀ c ∈ cs, c.spinner? ≠ some n) :
    updates n cs = [] := by
  refine List.filterMap_eq_nil_iff.mpr fun c hc ↦ ?_
  cases c with
  | spinner m act =>
    cases act with
    | update label => exact if_neg fun hm ↦ h _ hc (congrArg some hm)
    | _ => rfl
  | _ => rfl

/-- Calls that hang on outcomes update no spinner. -/
theorem updates_filter_isSteady (n : Nat) (cs : List Call) :
    updates n (cs.filter Call.isSteady) = updates n cs := by
  rw [updates, List.filterMap_filter]
  refine List.filterMap_congr fun c _ ↦ ?_
  cases c with
  | indicator m act => cases act <;> rfl
  | _ => rfl

namespace Tracking

variable {t : Tracking} {n : Nat} {id : ToolId} {q : Cue}

theorem updates_spinnerCalls (h : t.spinner = some n) (label : String) :
    updates n (t.spinnerCalls (.update label)) = [label] := by
  simp [spinnerCalls, h, updates, Call.update?_self]

theorem updates_spinnerCalls_of_forall_ne {act : SpinnerAct}
    (h : ∀ label, act ≠ .update label) (n : Nat) :
    updates n (t.spinnerCalls act) = [] := by
  refine List.filterMap_eq_nil_iff.mpr fun c hc ↦ ?_
  obtain ⟨m, -, rfl⟩ := mem_spinnerCalls_iff.mp hc
  cases act with
  | update label => exact absurd rfl (h label)
  | _ => rfl

/-- Only input updates a spinner. -/
theorem updates_calls_eq_nil (h : ∀ now u, q ≠ .input now u) (t : Tracking) (n : Nat) :
    updates n (t.calls q) = [] := by
  cases q with
  | input now u => exact absurd rfl (h now u)
  | indicate console => rfl
  | write kind text endLine => rfl
  | throttle console delay =>
    rw [calls, updates_append, updates_spinnerCalls_of_forall_ne (by simp)]
    rfl
  | halt => exact updates_spinnerCalls_of_forall_ne (by simp) n
  | announce name => exact updates_spinnerCalls_of_forall_ne (by simp) n
  | result now id e =>
    simp only [calls, concludeCalls]
    split
    · rfl
    · rw [updates_append, updates_spinnerCalls_of_forall_ne (by cases e <;> simp [Stage.finalAct])]
      split <;> rfl

/-- A new spinner has a new number. -/
theorem updates_create {opened : Nat} (h : n ≤ opened) (preparing label : String) :
    updates n [.openSpinner (opened + 1), .spinner (opened + 1) (.start preparing),
      .spinner (opened + 1) (.update label)] = [] := by
  refine updates_eq_nil fun c hc hn ↦ ?_
  have hnew : c.spinner? = some (opened + 1) := by
    simp only [List.mem_cons, List.not_mem_nil, or_false] at hc
    rcases hc with rfl | rfl | rfl <;> rfl
  exact Nat.not_succ_le_self _ (Option.some.inj (hnew.symm.trans hn) ▸ h)

/-! ## Spinners that are gone -/

/-- A spinner has been created, and is not the one at hand. -/
structure Gone (n : Nat) (t : Tracking) : Prop where
  created : n ≤ t.opened
  dropped : t.spinner ≠ some n

theorem Gone.updates_calls (h : t.Gone n) (q : Cue) : updates n (t.calls q) = [] := by
  refine updates_eq_nil fun c hc hn ↦ ?_
  rcases mem_calls_cases hc with hnone | ⟨act, -, hheld⟩ | ⟨now, u, -, -, hnew⟩
  · rw [hnone] at hn
    cases hn
  · obtain ⟨m, hm, rfl⟩ := mem_spinnerCalls_iff.mp hheld
    exact h.dropped (hm.trans hn)
  · obtain rfl := Option.some.inj (hnew.symm.trans hn)
    exact Nat.not_succ_le_self _ h.created

/-- The spinner at hand stays, is let go of, or is a new one. -/
theorem spinner_step_cases (t : Tracking) (q : Cue) :
    (t.step q).spinner = t.spinner ∨ (t.step q).spinner = none ∨
    (t.step q).spinner = some (t.opened + 1) := by
  cases q with
  | input now u =>
    rw [step, observe_spinner, turn]
    split
    · exact .inl rfl
    · exact .inr (.inr rfl)
  | result now id e =>
    rw [step, conclude]
    split
    · exact .inl rfl
    · exact .inr (.inl rfl)
  | _ => exact .inl rfl

theorem Gone.step (h : t.Gone n) (q : Cue) : (t.step q).Gone n := by
  refine ⟨Nat.le_trans h.created (t.opened_le_step q), ?_⟩
  rcases t.spinner_step_cases q with hs | hs | hs
  · exact hs ▸ h.dropped
  · simp [hs]
  · rw [hs]
    exact fun hn ↦ Nat.not_succ_le_self _ (Option.some.inj hn ▸ h.created)

/-- A spinner that is gone is updated no more. -/
theorem Gone.updates_trace (h : t.Gone n) (cues : List Cue) : updates n (t.trace cues) = [] := by
  induction cues generalizing t with
  | nil => rfl
  | cons q rest ih =>
    rw [trace_cons, updates_append, h.updates_calls, ih (h.step q), List.append_nil]

/-! ## The spinner of the current tool -/

/-- The cues of a list before the one with which a tool is no longer the current one. -/
def whileCurrent (id : ToolId) : List Cue → Tracking → List Cue
  | [], _ => []
  | q :: rest, t => if (t.step q).current = some id then
    q :: (t.step q).whileCurrent id rest else []

/-- The spinner `n` has been created for a tool with its input `u` at time `now`, and the tool is
still the current one. -/
structure Shows (n : Nat) (id : ToolId) (now : Nat) (u : ToolInput) (since : List Cue)
    (t : Tracking) : Prop where
  created : n ≤ t.opened
  spinner : t.spinner = some n
  current : t.current = some id
  entry : ∃ i, t.tools.find? id = some i ∧ i.DatesFrom id now u since

/-- A result that leaves a tool the current one belongs to no tracked tool. -/
theorem conclude_of_current {ended : ToolId} (h : (t.conclude ended).current = some id) :
    t.conclude ended = t := by
  unfold conclude at h ⊢
  split at h
  · rfl
  · cases h

/-- What is no input and leaves a tool the current one changes no more than the number of
displays. -/
theorem step_of_current (hq : ∀ now u, q ≠ .input now u) (h : (t.step q).current = some id) :
    ∃ opened, t.step q = { t with opened } := by
  cases q with
  | input now u => exact absurd rfl (hq now u)
  | result now ended e => exact ⟨t.opened, conclude_of_current h⟩
  | _ => exact step_of_tool?_eq_none rfl t

/-- What is no input and leaves a tool the current one no longer lets go of the spinner. -/
theorem spinner_step_of_current_ne (hq : ∀ now u, q ≠ .input now u)
    (hcurrent : t.current = some id) (h : (t.step q).current ≠ some id) :
    (t.step q).spinner = none := by
  cases q with
  | input now u => exact absurd rfl (hq now u)
  | result now ended e =>
    rw [step, conclude] at h ⊢
    split
    · rename_i hfind
      rw [hfind] at h
      exact absurd hcurrent h
    · rfl
  | _ => exact absurd hcurrent h

namespace Shows

variable {now : Nat} {u v : ToolInput} {since : List Cue}

/-- Input of the tool is shown if it is larger than all before it. -/
theorem updates_calls_input (h : t.Shows n v.id now u since) (time : Nat) :
    updates n (t.calls (.input time v)) =
      if ∀ x ∈ u.size :: Cue.sizes v.id since, x < v.size then
        [u.name ++ ": " ++ toString v.size ++ " chars"] else [] := by
  obtain ⟨i, hi, hdates⟩ := h.entry
  simp only [calls_input_of_eq h.current hi, ← hdates.largest_lt_iff, ← hdates.name]
  split
  · exact updates_spinnerCalls h.spinner _
  · rfl

theorem step_input (h : t.Shows n v.id now u since) (time : Nat) :
    (t.step (.input time v)).Shows n v.id now u (since ++ [.input time v]) := by
  obtain ⟨i, hi, hdates⟩ := h.entry
  refine ⟨Nat.le_trans h.created (t.opened_le_step _), ?_, step_input_current t time v, ?_⟩
  · rw [step, observe_spinner, turn_of_eq time h.current, h.spinner]
  · exact ⟨_, find?_step_input_of_eq h.current hi, hdates.append_input time⟩

/-- What is no input and leaves the tool the current one makes no difference. -/
theorem step_other (h : t.Shows n id now u since) (hq : ∀ now u, q ≠ .input now u)
    (hcurrent : (t.step q).current = some id) : (t.step q).Shows n id now u since := by
  have hopened := Nat.le_trans h.created (t.opened_le_step q)
  obtain ⟨opened, hstep⟩ := step_of_current hq hcurrent
  rw [hstep] at hopened ⊢
  exact ⟨hopened, h.spinner, h.current, h.entry⟩

/-- Once the tool is not the current one any more the spinner is gone, and it is not updated on the
way. -/
theorem gone_of_current_ne (h : t.Shows n id now u since)
    (hcurrent : (t.step q).current ≠ some id) :
    (t.step q).Gone n ∧ updates n (t.calls q) = [] := by
  have hopened := Nat.le_trans h.created (t.opened_le_step q)
  rcases q.input_or_ne with ⟨time, v, rfl⟩ | hq
  · have hc : t.current ≠ some v.id := fun hv ↦ by
      rw [step_input_current, ← hv, h.current] at hcurrent
      exact hcurrent rfl
    refine ⟨⟨hopened, ?_⟩, ?_⟩
    · rw [step, observe_spinner, turn, if_neg hc]
      exact fun hn ↦ Nat.not_succ_le_self _ (Option.some.inj hn ▸ h.created)
    · rw [calls_input_of_ne hc, updates_append, updates_spinnerCalls_of_forall_ne (by simp),
        List.nil_append]
      exact updates_create h.created _ _
  · refine ⟨⟨hopened, ?_⟩, updates_calls_eq_nil hq t n⟩
    simp [spinner_step_of_current_ne hq h.current hcurrent]

/-- From some point on the spinner of the current tool is updated for the inputs of the tool that
are larger than all those before them, until the tool is no longer the current one. -/
theorem updates_trace (h : t.Shows n id now u since) (cues : List Cue) :
    updates n (t.trace cues) =
      (highs (u.size :: Cue.sizes id since) (Cue.sizes id (t.whileCurrent id cues))).map
        fun size ↦ u.name ++ ": " ++ toString size ++ " chars" := by
  induction cues generalizing t since with
  | nil => rfl
  | cons q rest ih =>
    rw [trace_cons, updates_append, whileCurrent]
    by_cases hcurrent : (t.step q).current = some id
    · rw [if_pos hcurrent]
      rcases q.input_or_ne with ⟨time, v, rfl⟩ | hq
      · obtain rfl : v.id = id :=
          Option.some.inj ((step_input_current t time v).symm.trans hcurrent)
        rw [h.updates_calls_input, ih (h.step_input time), Cue.sizes_append, Cue.sizes_cons_input,
          Cue.sizes_cons_input, highs, List.map_append]
        congr 1
        split <;> rfl
      · have hother := Cue.sizes_cons_other (Cue.size?_of_ne_input hq id)
        rw [updates_calls_eq_nil hq, ih (h.step_other hq hcurrent), hother]
        rfl
    · obtain ⟨hgone, hupdates⟩ := h.gone_of_current_ne hcurrent
      rw [if_neg hcurrent, hupdates, hgone.updates_trace]
      rfl

end Shows

/-- Right after a turn the new spinner shows the tool. -/
theorem shows_of_turnsTo {now : Nat} {u : ToolInput} (h : t.TurnsTo u.id (.input now u)) :
    (t.step (.input now u)).Shows (t.opened + 1) u.id now u [] := by
  have hopened : (t.step (.input now u)).opened = t.opened + 1 := by
    rw [step, observe_opened, turn, if_neg h.2]
  have hspinner : (t.step (.input now u)).spinner = some (t.opened + 1) := by
    rw [step, observe_spinner, turn, if_neg h.2]
  exact ⟨Nat.le_of_eq hopened.symm, hspinner, step_input_current t now u, _,
    find?_step_input_of_ne now h.2, .first u.id now u⟩

/-- The updates of a spinner in a list of cues that creates it with a turn to its tool. -/
theorem updates_trace_of_turnsTo {notifies : Bool} {opened now : Nat} {u : ToolInput}
    {front rest : List Cue} :
    let t := (new notifies opened).play front
    t.TurnsTo u.id (.input now u) →
    updates (t.opened + 1) ((new notifies opened).trace (front ++ .input now u :: rest)) =
      (highs [] (u.size :: Cue.sizes u.id ((t.step (.input now u)).whileCurrent u.id rest))).map
        fun size ↦ u.name ++ ": " ++ toString size ++ " chars" := by
  intro t hturn
  -- Before the turn there is no call to a spinner of this number.
  have hfront : updates (t.opened + 1) ((new notifies opened).trace front) = [] := by
    have horder := spinnersInOrder_play (t := new notifies opened) (.nil opened) front
    refine updates_eq_nil fun c hc hn ↦ ?_
    exact Nat.not_succ_le_self _ (horder.bounded c (List.mem_append_right _ hc) _ hn)
  have hcreate : updates (t.opened + 1) (t.calls (.input now u)) =
      [u.name ++ ": " ++ toString u.size ++ " chars"] := by
    rw [calls_input_of_ne hturn.2, updates_append, updates_spinnerCalls_of_forall_ne (by simp),
      updates, List.filterMap_cons_none rfl, List.filterMap_cons_none rfl,
      List.filterMap_cons_some (Call.update?_self _ _)]
    rfl
  rw [trace_append, trace_cons, updates_append, updates_append, hfront, hcreate,
    (shows_of_turnsTo hturn).updates_trace]
  simp [highs, Cue.sizes]

/-- A spinner is opened only when the presenter turns to a tool, and has the next number. -/
theorem openSpinner_mem_calls (h : .openSpinner n ∈ t.calls q) :
    ∃ now u, q = .input now u ∧ t.TurnsTo u.id (.input now u) ∧ n = t.opened + 1 := by
  rcases mem_calls_cases h with hnone | ⟨act, -, h⟩ | ⟨now, u, hq, hc, hnew⟩
  · cases hnone
  · obtain ⟨m, -, hm⟩ := mem_spinnerCalls_iff.mp h
    cases hm
  · exact ⟨now, u, hq, ⟨rfl, hc⟩, Option.some.inj hnew⟩

end Tracking

namespace Stage

variable {World : Type}

/-- In a run of a new presenter every spinner has been created by a turn to its tool.  It is updated
once for every input that is larger than all those of the tool before it, from the turn until the
tool is no longer the current one.  So the sizes that it shows grow, and the first of them is that
of the input that has created it.

As long as a tool is the current one, to deliver what has been seen since the last turn to it once
more changes neither the current tool nor any entry, and brings about no call.  What may come in
between are callbacks with anything but input of another tool and results of tracked ones. -/
theorem updates_of_spinner (d : Display World) (deliveries : List Delivery) (notifies : Bool)
    (opened : Nat) (w : World) :
    let t := Tracking.new notifies opened
    let cues := deliveries.flatMap Delivery.cues
    let s := Stage.run d deliveries (.enter (.new notifies) opened w)
    (∀ n, .openSpinner n ∈ s.calls →
      ∃ front now u rest, cues = front ++ .input now u :: rest ∧
        (t.play front).TurnsTo u.id (.input now u) ∧ n = (t.play front).opened + 1 ∧
        let since := ((t.play front).step (.input now u)).whileCurrent u.id rest
        let shown := highs [] (u.size :: Cue.sizes u.id since)
        updates n s.calls = shown.map (fun size ↦ u.name ++ ": " ++ toString size ++ " chars") ∧
          shown.Pairwise (· < ·) ∧ shown.head? = some u.size) ∧
    ∀ id, s.presenter.current = some id →
      (∃ now u since, t.LastTurn id cues now u since) ∧
      ∀ now u since, t.LastTurn id cues now u since →
        ∀ more, (∀ x ∈ more, x.callback.Repeats id (u.size :: Cue.sizes id since)
          s.presenter.tools) →
          let s' := Stage.run d more s
          s'.presenter.current = s.presenter.current ∧ s'.presenter.tools = s.presenter.tools ∧
            s'.steadyCalls = (Stage.run d (more.map Delivery.withoutTool) s).steadyCalls := by
  intro t cues s
  have hfollows := follows_run d deliveries (.enter (.new notifies) opened w)
  have hsteady : s.steadyCalls = t.trace cues := hfollows.steadyCalls
  refine ⟨fun n hn ↦ ?_, fun id hcurrent ↦ ?_⟩
  · have hmem : .openSpinner n ∈ t.trace cues := hsteady ▸ List.mem_filter.mpr ⟨hn, rfl⟩
    obtain ⟨front, q, rest, hcues, hmem⟩ := Tracking.exists_split_of_mem_trace hmem
    obtain ⟨now, u, rfl, hturn, rfl⟩ := Tracking.openSpinner_mem_calls hmem
    refine ⟨front, now, u, rest, hcues, hturn, rfl, ?_, pairwise_highs _ _, rfl⟩
    rw [← updates_filter_isSteady, ← steadyCalls, hsteady, hcues,
      Tracking.updates_trace_of_turnsTo hturn]
  · have hcoherent := tracking_run_coherent d deliveries notifies opened w
    obtain ⟨i, hi⟩ : ∃ i, s.presenter.tools.find? id = some i :=
      Option.isSome_iff_exists.mp (hcoherent.tracked id hcurrent)
    have htools : s.presenter.tools = (t.play cues).tools :=
      congrArg Tracking.tools hfollows.tracking
    rw [htools] at hi
    obtain ⟨now, u, since, hlast, hdates⟩ := Tracking.exists_lastTurn (t := t) rfl hi
    refine ⟨⟨now, u, since, hlast⟩, fun now' u' since' hlast' more hmore ↦ ?_⟩
    obtain ⟨rfl, rfl, rfl⟩ := hlast.unique hlast'
    exact run_of_repeats d hcurrent (htools ▸ hi)
      (List.max?_eq_some_iff.mp hdates.largest).2 hmore

/-- A tool is shown, another one is turned to, and the first one is returned to under another name:
then its sizes begin anew.  After that its input is delivered again, with a forced stop and the
result of an unknown tool in between. -/
theorem updates_of_spinner_after_return :
    let before :=
      [⟨0, .ofInput "A" "shell" "café"⟩, ⟨1, { Callback.empty with forceStop := true }⟩,
      ⟨2, .ofInput "A" "sh" "01"⟩, ⟨3, .ofInput "A" "sh" "012345"⟩,
      ⟨4, .ofInput "B" "editor" "x"⟩,
      ⟨5, .ofInput "A" "bash" "01"⟩, ⟨6, .ofInput "A" "bash" "012"⟩]
    let more :=
      [⟨7, .ofInput "A" "bash" "01"⟩, ⟨8, { Callback.empty with forceStop := true }⟩,
      ⟨9, .ofResults ["C"]⟩, ⟨10, .ofInput "A" "sh" "012"⟩]
    let s := Stage.run .always before (.enter (.new true) 0 ())
    let s' := Stage.run .always more s
    updates 1 s.calls = ["shell: 4 chars", "shell: 6 chars"] ∧
      updates 3 s.calls = ["bash: 2 chars", "bash: 3 chars"] ∧
      (∃ (u : ToolInput) (shown : List Nat),
        updates 3 s.calls = shown.map (fun size ↦ u.name ++ ": " ++ toString size ++ " chars") ∧
          shown.Pairwise (· < ·) ∧ shown.head? = some u.size) ∧
      s'.presenter.current = some "A" ∧ s'.presenter.tools = s.presenter.tools ∧
      s'.steadyCalls = s.steadyCalls ++ [.spinner 3 .stop] := by
  intro before more s s'
  have hcreated : s.calls[10]? = some (.openSpinner 3) := rfl
  have hcurrent : s.presenter.current = some "A" := by decide
  have hlast :
      (Tracking.new true 0).LastTurn "A" (before.flatMap Delivery.cues) 5
        ⟨"A", "bash", "01", by decide⟩ [.input 6 ⟨"A", "bash", "012", by decide⟩] :=
    ⟨(before.take 5).flatMap Delivery.cues, rfl, ⟨rfl, by decide⟩,
      fun hturn ↦ hturn.2 (by decide), trivial⟩
  have hmore : ∀ x ∈ more, x.callback.Repeats "A" [2, 3] s.presenter.tools := by
    intro x hx
    simp only [more, List.mem_cons, List.not_mem_nil, or_false] at hx
    rcases hx with rfl | rfl | rfl | rfl
    · refine ⟨fun u hu ↦ ?_, nofun⟩
      obtain rfl : (⟨"A", "bash", "01", by decide⟩ : ToolInput) = u := Option.some.inj hu
      exact ⟨rfl, 2, by decide, by decide⟩
    · exact ⟨nofun, nofun⟩
    · refine ⟨nofun, fun r hr ended hended ↦ ?_⟩
      obtain rfl := List.mem_singleton.mp hr
      obtain rfl := Option.some.inj hended
      decide
    · refine ⟨fun u hu ↦ ?_, nofun⟩
      obtain rfl : (⟨"A", "sh", "012", by decide⟩ : ToolInput) = u := Option.some.inj hu
      exact ⟨rfl, 3, by decide, by decide⟩
  obtain ⟨front, now, u, rest, -, -, -, hupdates, hgrow, hfirst⟩ :=
    (updates_of_spinner .always before true 0 ()).1 3 (List.mem_of_getElem? hcreated)
  obtain ⟨hkept, htools, hsteady⟩ :=
    ((updates_of_spinner .always before true 0 ()).2 "A" hcurrent).2 5 _ _ hlast more hmore
  refine ⟨by decide, by decide, ⟨u, _, hupdates, hgrow, hfirst⟩,
    hkept.trans hcurrent, htools, ?_⟩
  rw [hsteady]
  rfl

end Stage

end AgentConsole
