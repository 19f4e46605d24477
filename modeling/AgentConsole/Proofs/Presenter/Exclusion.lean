import AgentConsole.Proofs.Presenter.IndicatorTrace

/-!
# What is shown while an indicator is live

Output and the progress of a tool take the screen (`Call.takesScreen`), and an indicator that is
live then would be in their way.  The first step of a callback therefore drops the indicator that is
held, but the second one may start another.  `Stage.live_of_takesScreen` says exactly which
indicators can be live when something takes the screen: the one that the same callback has started,
where it does not force a stop.

* `Stage.Follows.exists_cue` : every call that hangs on no outcome comes from a cue.
* `Stage.indicator_prepare_iff` : the indicator that is held once the stage is ready.
* `Stage.live_of_takesScreen` : the indicator that is live when something takes the screen.
-/

namespace AgentConsole

/-- Whether a call writes output, or shows the progress of a tool. -/
def Call.takesScreen : Call → Bool
  | .stream .output _ _ | .spinner _ (.start _) | .spinner _ (.update _) => true
  | _ => false

/-- Whether a cue may bring such a call about. -/
def Cue.takesScreen : Cue → Bool
  | .write .output _ _ | .input _ _ => true
  | _ => false

theorem Call.isSteady_of_takesScreen {c : Call} (h : c.takesScreen = true) : c.isSteady = true := by
  cases c with
  | indicator n act => cases h
  | _ => rfl

/-! ## Cues that take the screen -/

/-- A callback with input that counts is about a tool. -/
theorem Callback.concernsTool_of_input?_isSome {c : Callback} (h : c.input?.isSome = true) :
    c.concernsTool = true := by
  unfold input? ToolUpdate.input? at h
  unfold concernsTool
  cases htool : c.tool with
  | none => simp [htool] at h
  | some payload =>
    cases payload with
    | malformed raw => simp [htool] at h
    | valid u =>
      by_cases hu : u.input = ""
      · simp [htool, hu] at h
      · simp [ToolUpdate.hasInput, hu]

namespace Tracking

/-- A call that takes the screen comes from a cue of this kind. -/
theorem takesScreen_of_mem_calls {t : Tracking} {q : Cue} {c : Call} (hc : c ∈ t.calls q)
    (h : c.takesScreen = true) : q.takesScreen = true := by
  cases q with
  | indicate console =>
    simp only [calls, List.mem_cons, List.not_mem_nil, or_false] at hc
    rcases hc with rfl | rfl <;> cases h
  | write kind text endLine =>
    obtain rfl := List.mem_singleton.mp hc
    cases kind with
    | reasoning => cases h
    | output => rfl
  | throttle console delay =>
    rcases List.mem_append.mp hc with hc | hc
    · obtain ⟨n, -, rfl⟩ := mem_spinnerCalls_iff.mp hc
      cases h
    · obtain rfl := List.mem_singleton.mp hc
      cases h
  | halt =>
    obtain ⟨n, -, rfl⟩ := mem_spinnerCalls_iff.mp hc
    cases h
  | announce name =>
    obtain ⟨n, -, rfl⟩ := mem_spinnerCalls_iff.mp hc
    cases h
  | input now u => rfl
  | result now id e =>
    simp only [calls, concludeCalls] at hc
    split at hc
    · cases hc
    · rcases List.mem_append.mp hc with hc | hc
      · obtain ⟨n, -, rfl⟩ := mem_spinnerCalls_iff.mp hc
        cases e <;> cases h
      · obtain ⟨-, hc⟩ := List.mem_ite_nil_right.mp hc
        obtain rfl := List.mem_singleton.mp hc
        cases h

end Tracking

namespace Stage

variable {World : Type}

/-- Every new call that hangs on no outcome comes from a cue. -/
theorem Follows.exists_cue {cues : List Cue} {s s' : Stage World} {new : List Event}
    (h : Follows cues s s') (events : s'.events = s.events ++ new) {e : Event} (he : e ∈ new)
    (hsteady : e.call.isSteady = true) :
    ∃ q ∈ cues, ∃ t : Tracking, e.call ∈ t.calls q := by
  refine Tracking.exists_of_mem_trace (t := s.tracking) ?_
  rw [← h.filter_new events]
  exact List.mem_filter.mpr ⟨List.mem_map_of_mem he, hsteady⟩

/-- Something takes the screen only where a cue has it do so. -/
theorem Follows.exists_cue_of_takesScreen {cues : List Cue} {s s' : Stage World} {new : List Event}
    (h : Follows cues s s') (events : s'.events = s.events ++ new) {e : Event} (he : e ∈ new)
    (hscreen : e.call.takesScreen = true) : ∃ q ∈ cues, q.takesScreen = true := by
  obtain ⟨q, hq, t, hc⟩ := h.exists_cue events he (Call.isSteady_of_takesScreen hscreen)
  exact ⟨q, hq, Tracking.takesScreen_of_mem_calls hc hscreen⟩

/-! ## The stage that is made ready -/

/-- Where no call is about an indicator none starts. -/
theorem Spares.hasStarted_iff {d : Display World} {s s' : Stage World}
    (h : Spares d s s') (n : Nat) :
    HasStarted n s'.events ↔ HasStarted n s.events := by
  obtain ⟨new, events, hnew⟩ := h.events
  rw [events, hasStarted_append_iff, or_iff_left]
  refine not_hasStarted_of_forall fun e he ↦ (Event.quiet_of_indicator?_ne ?_).1
  simp [hnew e he]

/-- The next indicator has not started yet. -/
theorem IndicatorsInOrder.not_hasStarted {s : Stage World} (h : s.IndicatorsInOrder) :
    ¬ HasStarted (s.opened + 1) s.events :=
  not_hasStarted_of_forall fun e he ↦ (Event.quiet_of_indicator?_ne (h.indicator?_ne e he)).1

variable (d : Display World)

theorem hasStarted_tolerate_iff (s : Stage World) {c : Call} {n : Nat}
    (hc : ∀ o, Event.starts n ⟨c, o⟩ = false) :
    HasStarted n (s.tolerate d c).2.events ↔ HasStarted n s.events := by
  obtain ⟨remarks, h⟩ := s.tolerate_eq d c
  have events : (s.tolerate d c).2.events = s.events ++ [⟨c, (s.call d c).1⟩] := by
    rw [h]
    rfl
  rw [events, hasStarted_append_iff, or_iff_left]
  exact not_hasStarted_of_forall (by simp [hc])

theorem hasStarted_dropIndicator_iff (s : Stage World) (n : Nat) :
    HasStarted n (s.dropIndicator d).events ↔ HasStarted n s.events := by
  unfold dropIndicator
  split
  · rfl
  · exact hasStarted_tolerate_iff d s fun o ↦ rfl

theorem hasStarted_updateIndicator_iff (s : Stage World) (n : Nat) :
    HasStarted n (s.updateIndicator d).events ↔ HasStarted n s.events := by
  unfold updateIndicator
  split
  · rfl
  · exact hasStarted_tolerate_iff d s fun o ↦ rfl

/-- An indicator that is shown while none is held is held if it has started. -/
theorem indicator_showIndicator_iff {s : Stage World} (hidle : s.presenter.indicator = none)
    (hnew : ¬ HasStarted (s.opened + 1) s.events) (console : Console) (n : Nat) :
    (s.showIndicator d console).presenter.indicator = some n ↔
      n = s.opened + 1 ∧ HasStarted n (s.showIndicator d console).events := by
  obtain ⟨o, started, -, events, indicator⟩ := exists_showIndicator d hidle console
  rw [indicator, events, hasStarted_append_iff, hasStarted_start_iff]
  by_cases hn : n = s.opened + 1
  · subst hn
    simp [hnew]
  · simp [hn, Ne.symm hn]

/-- The indicator that is held after the first two steps, where the first one drops the indicator
that was held before. -/
theorem indicator_cycleIndicator_iff {s : Stage World} {c : Callback}
    (hdrop : (c.output?.isSome || c.concernsTool) = true)
    (hnew : ¬ HasStarted (s.opened + 1) s.events)
    (n : Nat) :
    (s.cycleIndicator d c).presenter.indicator = some n ↔
      c.initLoop = true ∧ n = s.opened + 1 ∧ HasStarted n (s.cycleIndicator d c).events := by
  have hupdate (s' : Stage World) :
      ((if c.startLoop then s'.updateIndicator d else s').presenter.indicator = some n ↔
        s'.presenter.indicator = some n) ∧
      (HasStarted n (if c.startLoop then s'.updateIndicator d else s').events ↔
        HasStarted n s'.events) := by
    split
    · exact ⟨by rw [updateIndicator_indicator], hasStarted_updateIndicator_iff d s' n⟩
    · exact ⟨.rfl, .rfl⟩
  simp only [cycleIndicator, hdrop, if_true]
  rw [(hupdate _).1, (hupdate _).2]
  cases c.initLoop with
  | false => simp
  | true =>
    have hshow := indicator_showIndicator_iff d (dropIndicator_indicator d s)
      (by rwa [dropIndicator_opened, hasStarted_dropIndicator_iff]) (c.console.getD .stdout) n
    simpa using hshow

/-- The indicator that is held once the stage is ready is one that the callback has started. -/
theorem indicator_prepare_iff {s : Stage World} {c : Callback}
    (hdrop : (c.output?.isSome || c.concernsTool) = true)
    (hnew : ¬ HasStarted (s.opened + 1) s.events)
    (n : Nat) :
    (s.prepare d c).presenter.indicator = some n ↔
      c.initLoop = true ∧ c.forceStop = false ∧ n = s.opened + 1 ∧
        HasStarted n (s.prepare d c).events := by
  have hwrite := spares_writeThrottle_writeReasoning d (s.cycleIndicator d c) c
  unfold prepare
  cases c.forceStop with
  | true => simp
  | false =>
    have hcycle := indicator_cycleIndicator_iff d hdrop hnew n
    rw [← hwrite.indicator, ← hwrite.hasStarted_iff] at hcycle
    simpa using hcycle

/-- Nothing takes the screen while the stage is made ready. -/
theorem exists_follows_prepare (s : Stage World) (c : Callback) :
    ∃ cues, Follows cues s (s.prepare d c) ∧ ∀ q ∈ cues, q.takesScreen = false := by
  refine ⟨_, (((follows_cycleIndicator d s c).append (follows_writeReasoning d _ c)).append
    (follows_writeThrottle d _ c)).append (follows_forceStop d _).ite, ?_⟩
  intro q hq
  simp only [List.mem_append] at hq
  rcases hq with ((hq | hq) | hq) | hq
  · obtain ⟨-, hq⟩ := List.mem_ite_nil_right.mp hq
    obtain rfl := List.mem_singleton.mp hq
    rfl
  · obtain ⟨text, -, rfl⟩ := Option.map_eq_some_iff.mp (Option.mem_toList.mp hq)
    rfl
  · split at hq
    · obtain rfl := List.mem_singleton.mp hq
      rfl
    · cases hq
  · obtain ⟨-, hq⟩ := List.mem_ite_nil_right.mp hq
    obtain rfl := List.mem_singleton.mp hq
    rfl

/-! ## What takes the screen -/

/-- Where a callback has something take the screen, its first step drops the indicator that was
held. -/
theorem drops_of_takesScreen {s : Stage World} {now : Nat} {c : Callback} {new : List Event}
    (events : (s.present d now c).events = s.events ++ new) {e : Event} (he : e ∈ new)
    (hscreen : e.call.takesScreen = true) : (c.output?.isSome || c.concernsTool) = true := by
  obtain ⟨q, hq, hscreen⟩ :=
    (follows_present d s now c).exists_cue_of_takesScreen events he hscreen
  rw [Bool.or_eq_true]
  rcases List.mem_append.mp hq with hq | hq
  · rcases List.mem_append.mp hq with hq | hq
    · obtain ⟨text, htext, -⟩ := Option.map_eq_some_iff.mp (Option.mem_toList.mp hq)
      exact .inl (Option.isSome_of_eq_some htext)
    · obtain ⟨u, hu, -⟩ := Option.map_eq_some_iff.mp (Option.mem_toList.mp hq)
      exact .inr (Callback.concernsTool_of_input?_isSome (Option.isSome_of_eq_some hu))
  · rcases List.mem_append.mp hq with hq | hq
    · obtain ⟨name, -, rfl⟩ := List.mem_map.mp hq
      cases hscreen
    · obtain ⟨r, -, hr⟩ := List.mem_filterMap.mp hq
      obtain ⟨id, -, rfl⟩ := Option.map_eq_some_iff.mp hr
      cases hscreen

/-- What takes the screen does so once the stage is ready, and nothing has been done to an indicator
since then. -/
theorem exists_of_takesScreen {s : Stage World} {now : Nat} {c : Callback}
    {before after : List Event} {e : Event}
    (events : (s.handle d now c).events = s.events ++ (before ++ e :: after))
    (hscreen : e.call.takesScreen = true) :
    ∃ more, s.events ++ before = (s.prepare d c).events ++ more ∧
      (∀ x ∈ more, x.call.indicator? = none) ∧
        (c.output?.isSome || c.concernsTool) = true := by
  obtain ⟨front, hfront⟩ := (moves_prepare d s c).events_mono
  obtain ⟨rest, hrest, hspared⟩ := (spares_present d (s.prepare d c) now c).events
  -- Making the stage ready follows cues that leave the screen alone, so the call comes later.
  have hlate : e ∉ front := by
    intro he
    obtain ⟨cues, hfollows, hcues⟩ := exists_follows_prepare d s c
    obtain ⟨q, hq, hq'⟩ := hfollows.exists_cue_of_takesScreen hfront.symm he hscreen
    exact Bool.noConfusion ((hcues q hq).symm.trans hq')
  have hsplit : front ++ rest = before ++ e :: after := by
    rw [handle_eq_present, hrest, ← hfront, List.append_assoc] at events
    exact List.append_cancel_left events
  rcases List.append_eq_append_iff.mp hsplit with ⟨more, rfl, rfl⟩ | ⟨more, rfl, hmore⟩
  · refine ⟨more, by rw [← hfront, List.append_assoc],
      fun x hx ↦ hspared x (by simp [hx]), ?_⟩
    exact drops_of_takesScreen d hrest (by simp) hscreen
  · cases more with
    | nil =>
      obtain rfl : rest = e :: after := hmore.symm
      refine ⟨[], by rw [← hfront, List.append_nil, List.append_nil], by simp, ?_⟩
      exact drops_of_takesScreen d hrest List.mem_cons_self hscreen
    | cons x more =>
      obtain ⟨rfl, -⟩ := List.cons.inj hmore
      exact absurd (by simp) hlate

/-- After any run of a new presenter, when a callback writes output or shows the progress of a tool,
an indicator is live if and only if that very callback has started it: it starts an event loop and
forces no stop, and the start has succeeded.  No indicator from before the callback is live then. -/
theorem live_of_takesScreen (deliveries : List Delivery) (notifies : Bool)
    (opened : Nat) (w : World) (now : Nat) (c : Callback) :
    let s := Stage.run d deliveries (.enter (.new notifies) opened w)
    ∃ new, (s.handle d now c).events = s.events ++ new ∧
      ∀ before e after, new = before ++ e :: after → e.call.takesScreen = true → ∀ n,
        Live n (s.events ++ before) ↔
          c.initLoop = true ∧ c.forceStop = false ∧ n = s.opened + 1 ∧
            HasStarted n before := by
  intro s
  have hs : s.IndicatorsInOrder := run_indicatorsInOrder d deliveries notifies opened w
  have hready : (s.prepare d c).IndicatorsInOrder :=
    (moves_prepare d s c).keeps Move.indicatorsInOrder hs
  obtain ⟨new, events⟩ := (moves_handle d s now c).events_mono
  refine ⟨new, events.symm, ?_⟩
  rintro before e after rfl hscreen n
  obtain ⟨more, hsplit, hspared, hdrop⟩ := exists_of_takesScreen d events.symm hscreen
  have hquiet : ∀ x ∈ more, x.starts n = false ∧ x.stops n = false := fun x hx ↦
    Event.quiet_of_indicator?_ne (by simp [hspared x hx])
  -- Since the stage is ready no indicator has started, and before the callback this one had not
  -- either.
  have hstarted : HasStarted n (s.prepare d c).events ↔ HasStarted n (s.events ++ before) := by
    rw [hsplit, hasStarted_append_iff,
      or_iff_left (not_hasStarted_of_forall fun x hx ↦ (hquiet x hx).1)]
  rw [hsplit, live_append_of_forall hquiet, ← hready.trace.held_iff,
    indicator_prepare_iff d hdrop hs.not_hasStarted, hstarted, hasStarted_append_iff]
  refine and_congr_right fun _ ↦ and_congr_right fun _ ↦ and_congr_right fun hn ↦ ?_
  exact or_iff_right (hn ▸ hs.not_hasStarted)

/-- Output that comes with the start of an event loop is written under the indicator of that
loop. -/
theorem output_under_indicator :
    let c := { Callback.empty with initLoop := true, data := some "Hi" }
    let s := Stage.run .always [⟨0, c⟩] (.enter (.new false) 0 ())
    ∃ before e after, s.events = before ++ e :: after ∧ e.call = .stream .output "Hi" false ∧
      Live 1 before :=
  ⟨[⟨.openIndicator 1 .stdout, .ok⟩,
      ⟨.indicator 1 (.start "retrieving memories..."), .ok⟩],
    ⟨.stream .output "Hi" false, .ok⟩, [], rfl, rfl, by decide⟩

end Stage

end AgentConsole
