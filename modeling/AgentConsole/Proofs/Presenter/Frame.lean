import AgentConsole.Proofs.Presenter.Move

/-!
# What a callback leaves alone

What a presenter tracks changes with the input of a tool and with the result of a tool that is
tracked.  A callback may carry much else: text, signals of the event loop, a forced stop, payloads
of the wrong shape, messages of the assistant, results of tools that nobody has heard of.  With all
this a spinner may be stopped or told that a tool has been asked for, but no spinner comes or goes,
none shows a tool any further, and nobody is notified.

* `Callback.NoProgress` : what a callback brings to a presenter, if it brings no tool any further.
* `Tracking.play_of_noProgress` : what the cues of such callbacks do.
* `Stage.handle_of_noProgress`, `Stage.run_of_noProgress` : the same of a callback, and of a run.
-/

namespace AgentConsole

/-- Whether a call shows the progress of a tool: a spinner is created, started, updated or gets its
last line, or a notification is sent. -/
def Call.isProgress : Call → Bool
  | .openSpinner _ | .notify _ _ => true
  | .spinner _ act =>
    match act with
    | .start _ | .update _ | .succeed _ | .fail _ => true
    | .info _ | .stop => false
  | .openIndicator _ _ | .indicator _ _ | .stream _ _ _ | .throttle _ _ => false

theorem Call.isSteady_of_isProgress {c : Call} (h : c.isProgress = true) : c.isSteady = true := by
  cases c with
  | indicator n act => cases h
  | _ => rfl

/-- A callback brings neither input that counts nor the result of one of the given tools. -/
structure Callback.NoProgress (tools : Tools) (c : Callback) : Prop where
  input : c.input? = none
  unmatched : ∀ r ∈ c.userResults, ∀ id, r.id = some id → tools.find? id = none

/-- A cue is neither input nor the result of one of the given tools. -/
def Cue.NoProgress (tools : Tools) : Cue → Prop
  | .input _ _ => False
  | .result _ id _ => tools.find? id = none
  | .indicate _ | .write _ _ _ | .throttle _ _ | .halt | .announce _ => True

theorem Callback.NoProgress.cues {tools : Tools} {c : Callback} {now : Nat} {q : Cue}
    (h : c.NoProgress tools) (hq : q ∈ c.cues now) : q.NoProgress tools := by
  cases q with
  | input time u =>
    have hu := (input_mem_cues_iff.mp hq).2
    rw [h.input] at hu
    cases hu
  | result time id e =>
    obtain ⟨-, r, hr, hid, -⟩ := result_mem_cues_iff.mp hq
    exact h.unmatched r hr id hid
  | _ => trivial

namespace Tracking

variable {t : Tracking} {q : Cue}

/-- A cue that brings no tool any further changes no more than the number of displays. -/
theorem step_of_noProgress (h : q.NoProgress t.tools) :
    ∃ opened, t.step q = { t with opened } := by
  cases q with
  | input now u => exact h.elim
  | result now id e =>
    exact ⟨t.opened, conclude_of_find?_eq_none h⟩
  | _ => exact step_of_tool?_eq_none rfl t

/-- What it has to say to the spinner at hand is a stop or an announcement. -/
theorem isProgress_of_mem_calls (h : q.NoProgress t.tools) {c : Call} (hc : c ∈ t.calls q) :
    c.isProgress = false := by
  cases q with
  | input now u => exact h.elim
  | result now id e =>
    rw [calls, concludeCalls_of_find?_eq_none h] at hc
    cases hc
  | indicate console =>
    simp only [calls, List.mem_cons, List.not_mem_nil, or_false] at hc
    rcases hc with rfl | rfl <;> rfl
  | write kind text endLine =>
    obtain rfl := List.mem_singleton.mp hc
    rfl
  | throttle console delay =>
    rcases List.mem_append.mp hc with hc | hc
    · obtain ⟨n, -, rfl⟩ := mem_spinnerCalls_iff.mp hc
      rfl
    · obtain rfl := List.mem_singleton.mp hc
      rfl
  | halt | announce name =>
    obtain ⟨n, -, rfl⟩ := mem_spinnerCalls_iff.mp hc
    rfl

/-- Cues that bring no tool any further change no more than the number of displays, and show no
progress. -/
theorem play_of_noProgress {cues : List Cue} (h : ∀ q ∈ cues, q.NoProgress t.tools) :
    (∃ opened, t.play cues = { t with opened }) ∧
      ∀ c ∈ t.trace cues, c.isProgress = false := by
  induction cues generalizing t with
  | nil => exact ⟨⟨t.opened, rfl⟩, by simp⟩
  | cons q rest ih =>
    have hq := h q List.mem_cons_self
    obtain ⟨opened, hstep⟩ := step_of_noProgress hq
    -- The entries are those from before the cue, so nothing has changed for the cues that follow.
    obtain ⟨⟨opened', hplay⟩, htrace⟩ :=
      ih (t := { t with opened }) fun p hp ↦ h p (List.mem_cons_of_mem _ hp)
    rw [play_cons, trace_cons, hstep]
    refine ⟨⟨opened', hplay⟩, fun c hc ↦ ?_⟩
    rcases List.mem_append.mp hc with hc | hc
    · exact isProgress_of_mem_calls hq hc
    · exact htrace c hc

end Tracking

namespace Stage

variable {World : Type} {d : Display World}

/-- Between two stages a presenter has kept its tools and its spinner, and has shown no progress: no
spinner has been created, started, updated or given its last line, and no notification has been
sent. -/
structure Keeps (s s' : Stage World) : Prop where
  current : s'.presenter.current = s.presenter.current
  tools : s'.presenter.tools = s.presenter.tools
  spinner : s'.presenter.spinner = s.presenter.spinner
  events : ∃ new, s'.events = s.events ++ new ∧ ∀ e ∈ new, e.call.isProgress = false

theorem Follows.keeps {cues : List Cue} {s s' : Stage World} (h : Follows cues s s')
    (hmono : s.events <+: s'.events) (hcues : ∀ q ∈ cues, q.NoProgress s.presenter.tools) :
    Keeps s s' := by
  obtain ⟨⟨opened, hplay⟩, htrace⟩ := Tracking.play_of_noProgress (t := s.tracking) hcues
  have htracking := h.tracking.trans hplay
  obtain ⟨new, events⟩ := hmono
  refine ⟨congrArg Tracking.current htracking, congrArg Tracking.tools htracking,
    congrArg Tracking.spinner htracking, new, events.symm, fun e he ↦ ?_⟩
  cases hprogress : e.call.isProgress with
  | false => rfl
  | true =>
    -- A call that shows progress hangs on no outcome, so it comes from one of the cues.
    have hmem : e.call ∈ s.tracking.trace cues := by
      rw [← h.filter_new events.symm]
      exact List.mem_filter.mpr ⟨List.mem_map_of_mem he, Call.isSteady_of_isProgress hprogress⟩
    exact hprogress.symm.trans (htrace _ hmem)

/-- A callback that brings neither input that counts nor the result of a tracked tool leaves the
current tool, the entries and the spinner as they are, whatever else it carries and however its
calls end, and shows no progress. -/
theorem handle_of_noProgress (d : Display World) {s : Stage World} {c : Callback}
    (h : c.NoProgress s.presenter.tools) (now : Nat) : Keeps s (s.handle d now c) :=
  (follows_handle d s now c).keeps (moves_handle d s now c).events_mono fun _ ↦ h.cues

/-- While a tool is current a callback starts an event loop, writes text, forces a stop, has input
of a tool without identifier, and brings the result of an unknown tool and one that names none. -/
theorem handle_of_noProgress_beside_tool :
    let s := Stage.run .always [⟨0, .ofInput "A" "shell" "ab"⟩] (.enter (.new true) 0 ())
    let nameless : Block := { Block.empty with result := some ⟨none, some .success, []⟩ }
    let c : Callback := { Callback.empty with
      data := some "Hi", initLoop := true, forceStop := true
      tool := some (.valid ⟨none, some "shell", "abc"⟩)
      message := some (.valid ⟨.user, [.ofResult "B" .success, nameless]⟩) }
    c.NoProgress s.presenter.tools ∧ Keeps s (s.handle .always 1 c) ∧
      s.presenter.current = some "A" ∧ .spinner 1 .stop ∈ (s.handle .always 1 c).calls := by
  intro s nameless c
  have h : c.NoProgress s.presenter.tools := by
    refine ⟨by decide, fun r hr id hid ↦ ?_⟩
    have hr :
        r ∈ [ToolResult.mk (some "B") (some .success) [], ⟨none, some .success, []⟩] := hr
    simp only [List.mem_cons, List.not_mem_nil, or_false] at hr
    rcases hr with rfl | rfl
    · obtain rfl := Option.some.inj hid
      decide
    · cases hid
  exact ⟨h, handle_of_noProgress .always h 1, by decide, List.mem_of_getElem? (i := 6) rfl⟩

/-- The same holds of any number of such callbacks, in particular where none of them has a tool or a
message. -/
theorem run_of_noProgress (d : Display World) {s : Stage World} {deliveries : List Delivery}
    (h : ∀ x ∈ deliveries, x.callback.NoProgress s.presenter.tools) :
    Keeps s (Stage.run d deliveries s) := by
  refine (follows_run d deliveries s).keeps (moves_run d deliveries s).events_mono fun q hq ↦ ?_
  obtain ⟨x, hx, hq⟩ := List.mem_flatMap.mp hq
  exact (h x hx).cues hq

end Stage

end AgentConsole
