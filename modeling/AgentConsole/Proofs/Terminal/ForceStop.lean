import AgentConsole.Proofs.Presenter.Coherence
import AgentConsole.Proofs.Terminal.Attendance
import AgentConsole.Proofs.Terminal.Replay

/-!
# What a forced stop leaves running

A forced stop comes in the midst of a callback: an indicator may have been started before it, and a
tool may have its first input after it.  When its turn comes everything stops that runs on the
terminal, and not only what was started just before (`Stage.Alone.idle_prepare`).  What the callback
does after that cannot start an indicator, and starts a spinner only for the input of another tool.

A replay is a run that ends with a forced stop and nothing else, so that nothing runs when the
program takes its leave (`Replay.Completes.settled`).

* `Stage.force_stop_run` : what runs after a forced stop, and at the end of a replay.
-/

namespace AgentConsole

theorem Terminal.Idle.stopSpinner_eq {t : Terminal} (h : t.Idle) (n : Nat) :
    t.stopSpinner n = t := by
  have hsame : t.spinners.filter (· ≠ n) = t.spinners := by
    rw [h.spinners]
    rfl
  rw [Terminal.stopSpinner, hsame]

namespace Tracking

variable {World : Type} {d : Display World} {view : World → Terminal} {t : Tracking}

/-- Once the spinner at hand has been halted, none runs. -/
theorem Minded.spinners_halt {w : World} (hd : d.ShowsOn view) (h : t.Minded (view w)) :
    (view (d.after (t.calls .halt) w)).spinners = [] := by
  rw [List.eq_nil_iff_forall_not_mem]
  intro m hm
  rcases hd.mem_spinners_after hm with ⟨hm, hhalts⟩ | ⟨label, hstart⟩
  · have hheld := h.held m hm
    exact hhalts .stop rfl (mem_spinnerCalls_iff.mpr ⟨m, hheld, rfl⟩)
  · obtain ⟨now, u, hq, -⟩ := start_mem_calls hstart
    cases hq

/-- Only input starts a spinner. -/
theorem exists_input_of_start_mem_trace {cues : List Cue} {m : Nat} {label : String}
    (h : .spinner m (.start label) ∈ t.trace cues) : ∃ now u, .input now u ∈ cues := by
  obtain ⟨q, hq, t', hmem⟩ := exists_of_mem_trace h
  obtain ⟨now, u, rfl, -⟩ := start_mem_calls hmem
  exact ⟨now, u, hq⟩

/-- Only input makes another tool the current one. -/
theorem current_step_eq_or_none {q : Cue} (h : ∀ now u, q ≠ .input now u) :
    (t.step q).current = t.current ∨ (t.step q).current = none := by
  cases q with
  | input now u => exact absurd rfl (h now u)
  | result now id e =>
    rw [step, conclude]
    split
    · exact .inl rfl
    · exact .inr rfl
  | _ => exact .inl rfl

theorem current_play_eq_or_none {cues : List Cue} (h : ∀ now u, .input now u ∉ cues) :
    (t.play cues).current = t.current ∨ (t.play cues).current = none := by
  induction cues generalizing t with
  | nil => exact .inl rfl
  | cons q rest ih =>
    have hq : ∀ now u, q ≠ .input now u := by
      rintro now u rfl
      exact h now u List.mem_cons_self
    rcases ih (t := t.step q) (fun now u hmem ↦ h now u (List.mem_cons_of_mem _ hmem))
      with hrest | hrest
    · rw [play_cons, hrest]
      exact current_step_eq_or_none hq
    · exact .inr hrest

end Tracking

namespace Stage

variable {World : Type} {d : Display World} {view : World → Terminal} {s : Stage World}

/-! ## The stop itself -/

/-- While the presenter holds no indicator none runs, and the slot is free. -/
theorem Alone.free (h : s.Alone view) (hnone : s.presenter.indicator = none) :
    (view s.world).claimed = false ∧ (view s.world).indicators = [] := by
  have hrunning := h.attended.running
  rw [hnone] at hrunning
  have hnil : (view s.world).indicators = [] := List.perm_nil.mp hrunning
  refine ⟨?_, hnil⟩
  rcases h.attended.orderly.free_or_claimed with ⟨hfree, -⟩ | ⟨n, -, hone⟩
  · exact hfree
  · rw [hnil] at hone
    cases hone

theorem Alone.idle_forceStop (hd : d.ShowsOn view) (h : s.Alone view) :
    (view (s.forceStop d).world).Idle := by
  obtain ⟨hfree, hnil⟩ :=
    (Moves.alone hd (moves_forceStop d s) h).free (forceStop_indicator d s)
  refine ⟨hfree, hnil, ?_⟩
  obtain ⟨m, hmoves, -, heq⟩ := exists_forceStop_eq d s
  have hworld := (spares_stopSpinner d m).world_eq (follows_stopSpinner d m)
  rw [heq, hworld, Tracking.trace_cons, Tracking.trace_nil, List.append_nil]
  exact (Moves.alone hd hmoves h).minded.spinners_halt hd

/-- When a callback forces a stop, nothing runs once the stage is ready. -/
theorem Alone.idle_prepare (hd : d.ShowsOn view) (h : s.Alone view) {c : Callback}
    (hc : c.forceStop = true) :
    (view (s.prepare d c).world).Idle ∧ (s.prepare d c).presenter.indicator = none := by
  have hready : ((s.cycleIndicator d c).writeReasoning d c |>.writeThrottle d c).Alone view := by
    have hwrite := (spares_writeThrottle_writeReasoning d (s.cycleIndicator d c) c)
    have hfollow := (follows_writeReasoning d (s.cycleIndicator d c) c).append
      (follows_writeThrottle d _ c)
    exact Move.alone hd (.follow _ hfollow hwrite) (Moves.alone hd (moves_cycleIndicator d s c) h)
  unfold prepare
  rw [if_pos hc]
  exact ⟨hready.idle_forceStop hd, forceStop_indicator d _⟩

/-! ## What comes after the stop -/

/-- To make the stage ready changes nothing of what is tracked but the number of displays. -/
theorem exists_prepare_tracking (s : Stage World) (c : Callback) :
    ∃ n, (s.prepare d c).tracking = { s.tracking with opened := n } := by
  have hfollow := (((follows_cycleIndicator d s c).append (follows_writeReasoning d _ c)).append
    (follows_writeThrottle d _ c)).append ((follows_forceStop d _).ite (p := c.forceStop = true))
  have htracking : (s.prepare d c).tracking = _ := hfollow.tracking
  rw [htracking]
  refine Tracking.play_of_forall_tool?_eq_none (fun q hq ↦ ?_) s.tracking
  exact Callback.tool?_of_mem_plainCues (List.mem_append_left _ hq)

/-- What the last three steps start is the spinner of a tool that was not the current one. -/
theorem exists_input_of_start_mem_present {now : Nat} {c : Callback} {n : Nat} {label : String}
    (h : .spinner n (.start label) ∈ s.tracking.trace
      ((c.output?.map (.write .output · c.complete)).toList ++ c.inputCues now ++
        c.messageCues now)) :
    ∃ u, c.input? = some u ∧ s.presenter.current ≠ some u.id ∧ s.opened < n := by
  have hwrite (t : Tracking) :
      t.play (c.output?.map (.write .output · c.complete)).toList = t := by
    cases c.output? with
    | none => rfl
    | some text => rfl
  rw [Tracking.trace_append, Tracking.trace_append, hwrite] at h
  rcases List.mem_append.mp h with h | h
  · rcases List.mem_append.mp h with h | h
    · obtain ⟨time, u, hmem⟩ := Tracking.exists_input_of_start_mem_trace h
      simp at hmem
    · unfold Callback.inputCues at h
      cases hinput : c.input? with
      | none => simp [hinput] at h
      | some u =>
        have hcalls : .spinner n (.start label) ∈ s.tracking.calls (.input now u) := by
          simpa [hinput] using h
        obtain ⟨time, v, hq, hcurrent, rfl, -⟩ := Tracking.start_mem_calls hcalls
        obtain ⟨-, rfl⟩ := Cue.input.inj hq
        exact ⟨u, rfl, hcurrent, Nat.lt_succ_self _⟩
  · obtain ⟨time, u, hmem⟩ := Tracking.exists_input_of_start_mem_trace h
    exact absurd hmem (Callback.input_notMem_messageCues now time c u)

/-- After its input a tool is the current one, until it has ended. -/
theorem current_present {now : Nat} {c : Callback} {u : ToolInput} (hu : c.input? = some u) :
    (s.present d now c).presenter.current = some u.id ∨
      (s.present d now c).presenter.current = none := by
  have hinput : ((s.writeOutput d c).followTool d now c).tracking.current = some u.id := by
    rw [(follows_followTool d (s.writeOutput d c) now c).tracking, Callback.inputCues, hu]
    exact Tracking.step_input_current _ now u
  have hmessage := Tracking.current_play_eq_or_none
    (t := ((s.writeOutput d c).followTool d now c).tracking)
    (fun time u ↦ Callback.input_notMem_messageCues now time c u)
  rw [hinput, ← (follows_followMessage d ((s.writeOutput d c).followTool d now c) now c).tracking]
    at hmessage
  exact hmessage

/-- A spinner that runs after a forced stop is that of a tool which has its first input in the same
callback. -/
theorem Alone.exists_input_of_mem_spinners (hd : d.ShowsOn view) (h : s.Alone view)
    (hcoherent : s.tracking.Coherent) {now : Nat} {c : Callback} (hc : c.forceStop = true) {n : Nat}
    (hn : n ∈ (view (s.handle d now c).world).spinners) :
    s.opened < n ∧ (s.handle d now c).presenter.spinner = some n ∧
      ∃ u, c.input? = some u ∧ s.presenter.current ≠ some u.id ∧
        (s.handle d now c).presenter.current = some u.id := by
  have hheld : (s.handle d now c).presenter.spinner = some n :=
    (Moves.alone hd (moves_handle d s now c) h).minded.held n hn
  have hcoherent' : (s.handle d now c).tracking.Coherent := by
    rw [(follows_handle d s now c).tracking]
    exact hcoherent.play _
  have hworld := (spares_present d (s.prepare d c) now c).world_eq (follows_present d _ now c)
  rw [handle_eq_present, hworld] at hn
  rcases hd.mem_spinners_after hn with ⟨hn, -⟩ | ⟨label, hstart⟩
  · rw [(h.idle_prepare hd hc).1.spinners] at hn
    cases hn
  · obtain ⟨u, hu, hcurrent, hopened⟩ := exists_input_of_start_mem_present hstart
    obtain ⟨m, htracking⟩ := exists_prepare_tracking (d := d) s c
    have hsame : (s.prepare d c).presenter.current = s.presenter.current :=
      congrArg Tracking.current htracking
    have hle : s.opened ≤ (s.prepare d c).opened := Moves.opened_le (moves_prepare d s c)
    refine ⟨Nat.lt_of_le_of_lt hle hopened, hheld, u, hu, hsame ▸ hcurrent, ?_⟩
    have hsome : (s.handle d now c).presenter.current.isSome := hcoherent'.held.mp (by
      rw [show (s.handle d now c).tracking.spinner = some n from hheld]
      rfl)
    have hpresent : (s.handle d now c).presenter.current = some u.id ∨
        (s.handle d now c).presenter.current = none := current_present hu
    rcases hpresent with heq | hnone
    · exact heq
    · rw [hnone] at hsome
      cases hsome

/-! ## A stop and nothing else -/

/-- A callback that forces a stop and carries nothing else comes down to the stop. -/
theorem handle_bareStop (s : Stage World) (now : Nat) : s.handle d now .bareStop = s.forceStop d :=
  rfl

/-- To stop once more changes nothing. -/
theorem forceStop_of_idle (hd : d.ShowsOn view) (hidle : (view s.world).Idle)
    (hnone : s.presenter.indicator = none) :
    (s.forceStop d).presenter = s.presenter ∧ view (s.forceStop d).world = view s.world := by
  unfold forceStop stopSpinner
  rw [hnone]
  dsimp only
  cases s.presenter.spinner with
  | none => exact ⟨rfl, rfl⟩
  | some n =>
    obtain ⟨remarks, heq⟩ := s.render_eq d .spinnerStop (.spinner n .stop)
    dsimp only
    rw [heq]
    refine ⟨rfl, ?_⟩
    have hview := ((hd (.spinner n .stop) s.world).eq_respond rfl).2
    exact hview.trans (hidle.stopSpinner_eq n)

/-- Nothing is live, and to force a stop once more would change neither the presenter nor what has
been written. -/
structure Settled (d : Display World) (view : World → Terminal) (s : Stage World) : Prop where
  idle : (view s.world).Idle
  dropped : s.presenter.indicator = none
  lasting : ∀ now, (s.handle d now .bareStop).presenter = s.presenter ∧
    view (s.handle d now .bareStop).world = view s.world

theorem Settled.of_idle (hd : d.ShowsOn view) (hidle : (view s.world).Idle)
    (hnone : s.presenter.indicator = none) : s.Settled d view where
  idle := hidle
  dropped := hnone
  lasting now := by
    rw [handle_bareStop]
    exact forceStop_of_idle hd hidle hnone

theorem Alone.settled (hd : d.ShowsOn view) (h : s.Alone view) (now : Nat) :
    (s.handle d now .bareStop).Settled d view := by
  rw [handle_bareStop]
  exact .of_idle hd (h.idle_forceStop hd) (forceStop_indicator d s)

end Stage

/-! ## The end of a replay -/

namespace Replay

/-- The last callback of a replay comes when all others have been handled. -/
theorem run_deliveriesFrom_concat (m : Manner) (count : Nat) (cs : List Callback) (c : Callback)
    (s : Stage Terminal) :
    Stage.run Terminal.display (deliveriesFrom m count (cs ++ [c])) s =
      (Stage.run Terminal.display (deliveriesFrom m count cs) s).handle Terminal.display
        ((count + cs.length) * m.pace * 1000000) c := by
  simp [Stage.run, deliveriesFrom, List.zipIdx_append]

/-- Nothing is live once a replay has come to its end, whatever the session holds. -/
theorem Completes.settled {m : Manner} {course : Course} {cs : List Callback}
    (h : Completes m course
      (Stage.run Terminal.display (deliveriesFrom m 0 (cs ++ [.bareStop])) (start m))) :
    course.stage.Settled Terminal.display id := by
  have hidle : (id (Terminal.new m.options.color m.ansi false)).Idle := Terminal.idle_new ..
  have halone := Stage.alone_run Terminal.display_showsOn hidle (deliveriesFrom m 0 cs)
    m.options.notifies 0
  have hsettled := halone.settled Terminal.display_showsOn ((0 + cs.length) * m.pace * 1000000)
  rw [← start, ← run_deliveriesFrom_concat] at hsettled
  rw [h.stage]
  -- The output that is taken away has no part in what runs.
  exact .of_idle Terminal.display_showsOn
    ⟨hsettled.idle.unclaimed, hsettled.idle.indicators, hsettled.idle.spinners⟩ hsettled.dropped

end Replay

namespace Stage

/-- Take any state that the only presenter at a terminal can reach, however many of its calls have
failed, and any callback that forces a stop.  Whatever else this carries, afterwards no indicator is
held or running and the slot is free.  No spinner from before the callback runs: one can run only if
the callback has input of a tool that was not the current one, and then it is the spinner of this
tool.

If the callback carries nothing else, nothing runs at all, and to force a stop once more changes
nothing.  This is how a replay ends, whatever callbacks the session holds, unless it breaks off at a
line that is no text: it is a run over the callbacks of the lines and such a stop after them. -/
theorem force_stop_run {World : Type} {d : Display World} {view : World → Terminal}
    (hd : d.ShowsOn view) {w : World} (hw : (view w).Idle) (deliveries : List Delivery)
    (notifies : Bool) (opened now : Nat) (c : Callback) (hc : c.forceStop = true) :
    let s := Stage.run d deliveries (.enter (.new notifies) opened w)
    let s' := s.handle d now c
    s'.presenter.indicator = none ∧
      (view s'.world).claimed = false ∧
      (view s'.world).indicators = [] ∧
      (∀ n, .openSpinner n ∈ s.calls → n ∉ (view s'.world).spinners) ∧
      (∀ n ∈ (view s'.world).spinners, s.opened < n ∧ s'.presenter.spinner = some n ∧
        ∃ u, c.input? = some u ∧ s.presenter.current ≠ some u.id ∧
          s'.presenter.current = some u.id) ∧
      (s.handle d now .bareStop).Settled d view ∧
      ∀ (m : Replay.Manner) session,
        let lines := Text.splitLines 10 13 session
        let callbacks := lines.filterMap CallbackSource.callback? ++ [.bareStop]
        let start := Stage.enter (.new m.options.notifies) 0
          (Terminal.new m.options.color m.ansi false)
        let last := Stage.run Terminal.display (Replay.deliveriesFrom m 0 callbacks) start
        let course := Replay.run m session
        (course.error = none ↔ ∀ l ∈ lines, CallbackSource.contentOf l ≠ .invalid) ∧
          (course.error = none →
            Replay.Completes m course last ∧ course.stage.Settled Terminal.display id) := by
  intro s s'
  have halone : s.Alone view := alone_run hd hw deliveries notifies opened
  have halone' : s'.Alone view := Moves.alone hd (moves_handle d s now c) halone
  have hcoherent : s.tracking.Coherent := tracking_run_coherent d deliveries notifies opened w
  have hnone : s'.presenter.indicator = none :=
    (spares_present d (s.prepare d c) now c).indicator.trans (halone.idle_prepare hd hc).2
  have hrunning : ∀ n ∈ (view s'.world).spinners, _ :=
    fun n hn ↦ halone.exists_input_of_mem_spinners hd hcoherent hc hn
  have horder : s.SpinnersInOrder :=
    (moves_run d deliveries (.enter (.new notifies) opened w)).keeps
      Move.spinnersInOrder (.nil opened)
  refine ⟨hnone, (halone'.free hnone).1, (halone'.free hnone).2, ?_, hrunning,
    halone.settled hd now, ?_⟩
  · intro n hopen hn
    have hle : n ≤ s.opened := horder.bounded _ hopen n rfl
    exact absurd (hrunning n hn).1 (Nat.not_lt.mpr hle)
  · intro m session lines callbacks start last course
    refine ⟨Replay.error_run_eq_none_iff m session, fun herror ↦ ?_⟩
    have hcompletes := Replay.completes_run m ((Replay.error_run_eq_none_iff m session).mp herror)
    exact ⟨hcompletes, hcompletes.settled⟩

/-- The output of two callbacks cannot be written, as the terminal is closed.  An indicator and the
spinner of a tool are live when the second one forces a stop, and brings the input of another tool:
these two stop, and the spinner of the other tool runs.

Beside it stands the replay of a session that holds one callback, which starts an indicator and
writes below it, and a line that is no callback.  The indicator stops before the farewell. -/
theorem force_stop_beside_input :
    let d := Terminal.unwritable "closed"
    let init := { Callback.ofInput "A" "shell" "a" with initLoop := true, data := some "out" }
    let c := { Callback.ofInput "B" "editor" "b" with forceStop := true, data := some "out" }
    let t := Terminal.new false false true
    let s := Stage.run d [⟨0, init⟩] (.enter (.new false) 0 t)
    let s' := s.handle d 1 c
    let m : Replay.Manner := { options := .default, ansi := false, pace := 0 }
    let session := Text.encode "\x7b\"init_event_loop\":true,\"data\":\"Hi\"\x7d\nnot json\n"
    let course := Replay.run m session
    d.ShowsOn id ∧ t.Idle ∧ c.forceStop = true ∧
      s.events.all (·.outcome.isOk) = false ∧ s.world.indicators = [1] ∧
      s.world.spinners = [2] ∧
      s'.presenter.indicator = none ∧ s'.world.claimed = false ∧ s'.world.indicators = [] ∧
      s'.world.spinners = [3] ∧ s'.presenter.current = some "B" ∧
      (s.handle d 1 .bareStop).Settled d id ∧
      course.error = none ∧
      String.join (course.pieces.map (·.stdout)) = "Hi" ++ Replay.farewell m ∧
      course.stage.Settled Terminal.display id := by
  have hd : (Terminal.unwritable "closed").ShowsOn id := Terminal.unwritable_showsOn "closed"
  have hidle : (id (Terminal.new false false true)).Idle := Terminal.idle_new false false true
  obtain ⟨hnone, hfree, hnil, -, -, hsettled, hreplay⟩ := force_stop_run hd hidle
    [⟨0, { Callback.ofInput "A" "shell" "a" with initLoop := true, data := some "out" }⟩]
    false 0 1 { Callback.ofInput "B" "editor" "b" with forceStop := true, data := some "out" } rfl
  have hcallback : CallbackSource.contentOf
      (Text.encode "\x7b\"init_event_loop\":true,\"data\":\"Hi\"\x7d") =
        .callback { Callback.empty with initLoop := true, data := some "Hi" } := by rfl
  have hunreadable :
      CallbackSource.contentOf (Text.encode "not json") = .unreadable "not json" := by rfl
  let session := Text.encode "\x7b\"init_event_loop\":true,\"data\":\"Hi\"\x7d\nnot json\n"
  have hlines : Text.splitLines 10 13 session =
      [Text.encode "\x7b\"init_event_loop\":true,\"data\":\"Hi\"\x7d", Text.encode "not json"] := by
    decide +kernel
  have htext :
      ∀ l ∈ Text.splitLines 10 13 session, CallbackSource.contentOf l ≠ .invalid := by
    simp [hlines, hcallback, hunreadable]
  obtain ⟨herror, hcompletes⟩ :=
    hreplay { options := .default, ansi := false, pace := 0 } session
  obtain ⟨hcourse, hquiet⟩ := hcompletes (herror.mpr htext)
  refine ⟨hd, hidle, rfl, by decide, by decide, by decide, hnone, hfree,
    hnil, by decide, by decide, hsettled, herror.mpr htext, hcourse.stdout.trans ?_, hquiet⟩
  rw [hlines]
  simp only [List.filterMap_cons, CallbackSource.callback?, hcallback, hunreadable]
  rfl

end Stage

end AgentConsole
