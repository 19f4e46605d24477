import AgentConsole.Proofs.Presenter.Tracking

/-!
# Performances

A presenter at work follows the cues of its callbacks.  `Stage.Follows cues s s'` says that between
two stages what is tracked has changed, and what has been called for has grown, as the cues say.
Left out of account are the calls that update or stop an indicator: these are the only ones that
hang on how earlier calls have ended.

Each of the eight steps follows its own cues, so a callback follows the cues of all of them
(`Stage.follows_handle`) and a run those of its callbacks (`Stage.follows_run`).
-/

namespace AgentConsole

/-- Whether a call is made in any case.  Indicators are updated and stopped only while they are
held. -/
def Call.isSteady : Call → Bool
  | .indicator _ (.update _) | .indicator _ .stop => false
  | _ => true

namespace Stage

variable {World : Type}

/-- What the presenter tracks. -/
def tracking (s : Stage World) : Tracking where
  notifies := s.presenter.notifies
  spinner := s.presenter.spinner
  current := s.presenter.current
  tools := s.presenter.tools
  opened := s.opened

/-- The calls made so far. -/
def calls (s : Stage World) : List Call := s.events.map (·.call)

/-- The calls made so far, but for updates and stops of indicators. -/
def steadyCalls (s : Stage World) : List Call := s.calls.filter Call.isSteady

/-- Calls that are made in any case can be looked up among the steady ones. -/
theorem filter_calls {p : Call → Bool} (hp : ∀ c, p c = true → c.isSteady = true)
    (s : Stage World) : s.calls.filter p = s.steadyCalls.filter p := by
  rw [steadyCalls, List.filter_filter]
  refine List.filter_congr fun c _ ↦ ?_
  cases h : p c with
  | false => rfl
  | true => simp [hp c h]

/-- Between two stages a list of cues is followed. -/
structure Follows (cues : List Cue) (s s' : Stage World) : Prop where
  /-- What is tracked has changed as the cues say. -/
  tracking : s'.tracking = s.tracking.play cues
  /-- What has been called for has grown as the cues say. -/
  steadyCalls : s'.steadyCalls = s.steadyCalls ++ s.tracking.trace cues

namespace Follows

/-- Where nothing that counts has changed, no cue has been followed. -/
theorem of_eq {s s' : Stage World} (ht : s'.tracking = s.tracking)
    (hc : s'.steadyCalls = s.steadyCalls) : Follows [] s s' :=
  ⟨ht, by simp [hc]⟩

theorem refl (s : Stage World) : Follows [] s s := of_eq rfl rfl

/-- Cues are followed one after the other. -/
theorem append {front rest : List Cue} {s m s' : Stage World} (h : Follows front s m)
    (h' : Follows rest m s') : Follows (front ++ rest) s s' where
  tracking := by rw [h'.tracking, h.tracking, Tracking.play_append]
  steadyCalls := by
    rw [h'.steadyCalls, h.steadyCalls, h.tracking, Tracking.trace_append, List.append_assoc]

/-- A step that is taken only on a condition follows its cues only then. -/
theorem ite {p : Prop} [Decidable p] {cues : List Cue} {s s' : Stage World}
    (h : Follows cues s s') : Follows (if p then cues else []) s (if p then s' else s) := by
  split
  · exact h
  · exact .refl s

/-- A step that follows a single cue. -/
theorem single {q : Cue} {s s' : Stage World} (ht : s'.tracking = s.tracking.step q)
    (hc : s'.steadyCalls = s.steadyCalls ++ s.tracking.calls q) : Follows [q] s s' :=
  ⟨ht, by simp [hc]⟩

/-- Among the new calls those that are made in any case are those of the cues. -/
theorem filter_new {cues : List Cue} {s s' : Stage World} {new : List Event}
    (h : Follows cues s s') (events : s'.events = s.events ++ new) :
    (new.map (·.call)).filter Call.isSteady = s.tracking.trace cues := by
  have htrace := h.steadyCalls
  rw [Stage.steadyCalls, calls, events, List.map_append, List.filter_append] at htrace
  exact List.append_cancel_left htrace

end Follows

/-! ## Calls and remarks -/

@[simp] theorem remark_tracking (s : Stage World) (r : Remark) :
    (s.remark r).tracking = s.tracking := rfl

@[simp] theorem remark_presenter (s : Stage World) (r : Remark) :
    (s.remark r).presenter = s.presenter := rfl

@[simp] theorem remark_opened (s : Stage World) (r : Remark) : (s.remark r).opened = s.opened := rfl

@[simp] theorem remark_steadyCalls (s : Stage World) (r : Remark) :
    (s.remark r).steadyCalls = s.steadyCalls := rfl

/-- Which calls have been made shows in the events alone. -/
@[simp] theorem steadyCalls_mk (s : Stage World) (p : Presenter) (opened : Nat) (w : World)
    (remarks : List Remark) : steadyCalls ⟨p, opened, w, s.events, remarks⟩ = s.steadyCalls :=
  rfl

variable (d : Display World)

@[simp] theorem call_steadyCalls (s : Stage World) (c : Call) :
    (s.call d c).2.steadyCalls = s.steadyCalls ++ if c.isSteady then [c] else [] := by
  simp [call, steadyCalls, calls, List.filter_cons]

theorem render_eq (s : Stage World) (what : Rendering) (c : Call) :
    ∃ remarks, s.render d what c = { (s.call d c).2 with remarks } := by
  unfold render
  split <;> rename_i h <;> rw [h]
  · exact ⟨_, rfl⟩
  · exact ⟨_, rfl⟩

theorem tolerate_eq (s : Stage World) (c : Call) :
    ∃ remarks, (s.tolerate d c).2 = { (s.call d c).2 with remarks } := by
  unfold tolerate
  split <;> rename_i h <;> rw [h]
  · exact ⟨_, rfl⟩
  · exact ⟨_, rfl⟩

@[simp] theorem render_tracking (s : Stage World) (what : Rendering) (c : Call) :
    (s.render d what c).tracking = s.tracking := by
  obtain ⟨remarks, h⟩ := s.render_eq d what c
  rw [h]; rfl

@[simp] theorem render_presenter (s : Stage World) (what : Rendering) (c : Call) :
    (s.render d what c).presenter = s.presenter := by
  obtain ⟨remarks, h⟩ := s.render_eq d what c
  rw [h]; rfl

@[simp] theorem render_steadyCalls (s : Stage World) (what : Rendering) (c : Call) :
    (s.render d what c).steadyCalls = s.steadyCalls ++ if c.isSteady then [c] else [] := by
  obtain ⟨remarks, h⟩ := s.render_eq d what c
  rw [h]; exact call_steadyCalls d s c

@[simp] theorem render_opened (s : Stage World) (what : Rendering) (c : Call) :
    (s.render d what c).opened = s.opened :=
  congrArg Tracking.opened (s.render_tracking d what c)

@[simp] theorem tolerate_tracking (s : Stage World) (c : Call) :
    (s.tolerate d c).2.tracking = s.tracking := by
  obtain ⟨remarks, h⟩ := s.tolerate_eq d c
  rw [h]; rfl

@[simp] theorem tolerate_steadyCalls (s : Stage World) (c : Call) :
    (s.tolerate d c).2.steadyCalls = s.steadyCalls ++ if c.isSteady then [c] else [] := by
  obtain ⟨remarks, h⟩ := s.tolerate_eq d c
  rw [h]; exact call_steadyCalls d s c

/-! ## The thinking indicator -/

theorem follows_dropIndicator (s : Stage World) : Follows [] s (s.dropIndicator d) := by
  unfold dropIndicator
  split
  · exact .refl s
  · rename_i n _
    obtain ⟨remarks, h⟩ := s.tolerate_eq d (.indicator n .stop)
    rw [h]
    exact .of_eq rfl (by simp [steadyCalls, calls, call, Call.isSteady])

theorem follows_showIndicator (s : Stage World) (console : Console) :
    Follows [.indicate console] s (s.showIndicator d console) := by
  -- An indicator that is held is dropped first, and this is no cue.
  suffices h : Follows [.indicate console] (s.dropIndicator d) (s.showIndicator d console) from
    (follows_dropIndicator d s).append h
  unfold showIndicator openDisplay
  generalize s.dropIndicator d = s
  obtain ⟨remarks, h⟩ := tolerate_eq d
    { (s.call d (.openIndicator (s.opened + 1) console)).2 with opened := s.opened + 1 }
    (.indicator (s.opened + 1) (.start "retrieving memories..."))
  dsimp only
  rw [h]
  split
  · exact .single rfl (by simp [steadyCalls, calls, call, Call.isSteady, Tracking.calls, tracking])
  · exact .single rfl (by simp [steadyCalls, calls, call, Call.isSteady, Tracking.calls, tracking])

theorem follows_updateIndicator (s : Stage World) : Follows [] s (s.updateIndicator d) := by
  unfold updateIndicator
  split
  · exact .refl s
  · exact .of_eq (by simp) (by simp [Call.isSteady])

theorem follows_cycleIndicator (s : Stage World) (c : Callback) :
    Follows (if c.initLoop then [.indicate (c.console.getD .stdout)] else []) s
      (s.cycleIndicator d c) := by
  have hdrop :
      Follows [] s (if c.output?.isSome || c.concernsTool then s.dropIndicator d else s) := by
    simpa using (follows_dropIndicator d s).ite
  have hshow := fun s : Stage World ↦
    (follows_showIndicator d s (c.console.getD .stdout)).ite (p := c.initLoop)
  have hupdate := fun s : Stage World ↦ (follows_updateIndicator d s).ite (p := c.startLoop)
  simpa [cycleIndicator] using (hdrop.append (hshow _)).append (hupdate _)

/-! ## Plain text and stops -/

theorem follows_writeReasoning (s : Stage World) (c : Callback) :
    Follows (c.reasoning?.map (.write .reasoning · false)).toList s (s.writeReasoning d c) := by
  unfold writeReasoning
  cases c.reasoning? with
  | none => exact .refl s
  | some text => exact .single (by simp [Tracking.step]) (by simp [Call.isSteady, Tracking.calls])

/-- Stopping the spinner makes one call, where there is a spinner. -/
theorem stopSpinner_steadyCalls (s : Stage World) :
    (s.stopSpinner d).steadyCalls = s.steadyCalls ++ s.tracking.spinnerCalls .stop := by
  unfold stopSpinner
  cases h : s.presenter.spinner with
  | none => simp [Tracking.spinnerCalls, tracking, h]
  | some n => simp [Tracking.spinnerCalls, tracking, h, Call.isSteady]

@[simp] theorem stopSpinner_tracking (s : Stage World) :
    (s.stopSpinner d).tracking = s.tracking := by
  unfold stopSpinner
  split <;> simp

@[simp] theorem stopSpinner_presenter (s : Stage World) :
    (s.stopSpinner d).presenter = s.presenter := by
  unfold stopSpinner
  split <;> simp

@[simp] theorem stopSpinner_opened (s : Stage World) : (s.stopSpinner d).opened = s.opened :=
  congrArg Tracking.opened (s.stopSpinner_tracking d)

theorem follows_writeThrottle (s : Stage World) (c : Callback) :
    Follows (match c.throttle?, c.console with
      | some delay, some console => [.throttle console delay]
      | _, _ => []) s (s.writeThrottle d c) := by
  unfold writeThrottle
  cases c.throttle? with
  | none => exact .refl s
  | some delay =>
    cases c.console with
    | none => exact .refl s
    | some console =>
      exact .single (by simp [Tracking.step])
        (by simp [stopSpinner_steadyCalls, Call.isSteady, Tracking.calls])

theorem follows_forceStop (s : Stage World) : Follows [.halt] s (s.forceStop d) := by
  unfold forceStop
  split
  · exact .single (by simp [Tracking.step]) (stopSpinner_steadyCalls d s)
  · rename_i n _
    obtain ⟨remarks, h⟩ := s.render_eq d .indicatorStop (.indicator n .stop)
    rw [h]
    refine .single (by simp only [stopSpinner_tracking]; rfl) ?_
    rw [stopSpinner_steadyCalls]
    simp [steadyCalls, calls, call, Call.isSteady, Tracking.calls, tracking]

theorem follows_writeOutput (s : Stage World) (c : Callback) :
    Follows (c.output?.map (.write .output · c.complete)).toList s (s.writeOutput d c) := by
  unfold writeOutput
  cases c.output? with
  | none => exact .refl s
  | some text => exact .single (by simp [Tracking.step]) (by simp [Call.isSteady, Tracking.calls])

/-! ## The input of tools -/

theorem switchTool_tracking (s : Stage World) (now : Nat) (u : ToolInput)
    (hc : s.presenter.current ≠ some u.id) :
    (s.switchTool d now u.id u.name).tracking = s.tracking.turn now u := by
  simp [switchTool, openDisplay, call, Tracking.turn, tracking, hc]

theorem switchTool_steadyCalls (s : Stage World) (now : Nat) (u : ToolInput)
    (hc : s.presenter.current ≠ some u.id) :
    (s.switchTool d now u.id u.name).steadyCalls = s.steadyCalls ++ s.tracking.turnCalls u := by
  have ht : s.tracking.current ≠ some u.id := hc
  have ho : s.tracking.opened = s.opened := rfl
  simp [switchTool, openDisplay, stopSpinner_steadyCalls, Tracking.turnCalls, Call.isSteady,
    preparingLabel, ht, ho]

theorem observeInput_tracking (s : Stage World) (u : ToolInput) :
    (s.observeInput d u.id u.size).tracking = s.tracking.observe u := by
  have ht : s.tracking.tools = s.presenter.tools := rfl
  unfold observeInput Tracking.observe
  rw [ht]
  cases s.presenter.tools.find? u.id with
  | none => rfl
  | some i =>
    by_cases hs : i.largest < u.size
    · simp only [Invocation.observe, hs, if_true]
      split
      · simp; rfl
      · rfl
    · simp [Invocation.observe, hs]

theorem observeInput_steadyCalls (s : Stage World) (u : ToolInput) :
    (s.observeInput d u.id u.size).steadyCalls = s.steadyCalls ++ s.tracking.observeCalls u := by
  have ht : s.tracking.tools = s.presenter.tools := rfl
  have hn : s.tracking.spinner = s.presenter.spinner := rfl
  unfold observeInput Tracking.observeCalls Tracking.spinnerCalls
  rw [ht, hn]
  cases s.presenter.tools.find? u.id with
  | none => simp
  | some i =>
    by_cases hs : i.largest < u.size
    · simp only [Invocation.observe, hs, if_true]
      cases s.presenter.spinner with
      | none => simp
      | some n => simp [Call.isSteady, Invocation.progressLabel]
    · simp [Invocation.observe, hs]

/-- Input that counts is taken in two parts: the presenter turns to the tool, and takes note. -/
theorem follows_input (s : Stage World) (now : Nat) (u : ToolInput) :
    Follows [.input now u] s
      ((if s.presenter.current = some u.id then s else s.switchTool d now u.id u.name).observeInput
        d u.id u.size) := by
  have hs : s.tracking.current = s.presenter.current := rfl
  split
  · rename_i hc
    refine .single ?_ ?_
    · simp [observeInput_tracking, Tracking.step, Tracking.turn, hs, hc]
    · simp [observeInput_steadyCalls, Tracking.calls, Tracking.turn, Tracking.turnCalls, hs, hc]
  · rename_i hc
    refine .single ?_ ?_
    · rw [observeInput_tracking, switchTool_tracking d s now u hc]
      rfl
    · rw [observeInput_steadyCalls, switchTool_tracking d s now u hc,
        switchTool_steadyCalls d s now u hc, List.append_assoc]
      rfl

theorem follows_trackInput (s : Stage World) (now : Nat) (u : ToolUpdate) :
    Follows (u.input?.map (.input now)).toList s (s.trackInput d now u) := by
  unfold trackInput ToolUpdate.input?
  by_cases hinput : u.input = ""
  · simpa [ToolUpdate.hasInput, hinput] using .refl s
  · have hsome : u.hasInput = true := by simpa [ToolUpdate.hasInput] using hinput
    rw [dif_neg hinput, if_pos hsome]
    cases hid : u.id with
    | none => exact .of_eq rfl rfl
    | some id =>
      cases hname : u.name with
      | none => exact .of_eq rfl rfl
      | some name => exact follows_input d s now ⟨id, name, u.input, hinput⟩

/-- The seventh step. -/
theorem follows_followTool (s : Stage World) (now : Nat) (c : Callback) :
    Follows (c.inputCues now) s (s.followTool d now c) := by
  unfold followTool Callback.inputCues Callback.input?
  cases c.tool with
  | none => exact .refl s
  | some payload =>
    cases payload with
    | valid u => exact follows_trackInput d s now u
    | malformed raw => exact .of_eq rfl rfl

/-! ## Messages -/

theorem follows_announce (s : Stage World) (call : ToolCall) :
    Follows (call.name.map .announce).toList s (s.announce d call) := by
  have hn : s.tracking.spinner = s.presenter.spinner := rfl
  unfold announce
  cases call.name with
  | none => exact .of_eq rfl rfl
  | some name =>
    dsimp only
    cases h : s.presenter.spinner with
    | none => exact .single rfl (by simp [Tracking.calls, Tracking.spinnerCalls, hn, h])
    | some n =>
      exact .single (by simp [Tracking.step])
        (by simp [Tracking.calls, Tracking.spinnerCalls, hn, h, Call.isSteady, startingLabel])

theorem conclude_tracking (s : Stage World) (now : Nat) {id : ToolId} {i : Invocation} (e : Ending)
    (hi : s.presenter.tools.find? id = some i) :
    (s.conclude d now id i e).tracking = s.tracking.conclude id := by
  have ht : s.tracking.tools = s.presenter.tools := rfl
  unfold conclude Tracking.conclude
  rw [ht, hi]
  cases s.presenter.spinner <;> cases hm : s.presenter.notifies <;> simp [tracking, call, hm]

theorem conclude_steadyCalls (s : Stage World) (now : Nat) {id : ToolId} {i : Invocation}
    (e : Ending) (hi : s.presenter.tools.find? id = some i) :
    (s.conclude d now id i e).steadyCalls = s.steadyCalls ++ s.tracking.concludeCalls now id e := by
  have ht : s.tracking.tools = s.presenter.tools := rfl
  have hn : s.tracking.spinner = s.presenter.spinner := rfl
  have hm : s.tracking.notifies = s.presenter.notifies := rfl
  have hsummary : e.message i.name (secondsOf (i.elapsed now)) = i.summary now e := by
    cases e <;> rfl
  unfold conclude Tracking.concludeCalls Tracking.spinnerCalls
  rw [ht, hi, hn, hm, hsummary]
  cases e <;> cases s.presenter.spinner <;> cases hb : s.presenter.notifies <;>
    simp [Call.isSteady, hb]

theorem follows_resolve (s : Stage World) (now : Nat) (r : ToolResult) :
    Follows (r.cue? now).toList s (s.resolve d now r) := by
  unfold resolve ToolResult.cue?
  cases r.id with
  | none => exact .of_eq rfl rfl
  | some id =>
    dsimp only
    cases hi : s.presenter.tools.find? id with
    | none =>
      have hnone : s.tracking.tools.find? id = none := hi
      exact .single (Tracking.conclude_of_find?_eq_none hnone).symm
        (by simp [Tracking.calls, Tracking.concludeCalls_of_find?_eq_none hnone])
    | some i =>
      exact .single (conclude_tracking d s now _ hi) (conclude_steadyCalls d s now _ hi)

/-- Items that each follow a cue, or none, follow all of theirs one after the other. -/
theorem follows_foldl {α : Type} {act : Stage World → α → Stage World}
    {cue? : α → Option Cue} (h : ∀ s x, Follows (cue? x).toList s (act s x)) (items : List α)
    (s : Stage World) :
    Follows (items.filterMap cue?) s (items.foldl act s) := by
  induction items generalizing s with
  | nil => exact .refl s
  | cons x rest ih =>
    have hx := (h s x).append (ih (act s x))
    cases hq : cue? x <;> simpa [hq, List.filterMap_cons] using hx

/-- The eighth step. -/
theorem follows_followMessage (s : Stage World) (now : Nat) (c : Callback) :
    Follows (c.messageCues now) s (s.followMessage d now c) := by
  unfold followMessage Callback.messageCues Callback.announced Callback.userResults
  cases c.message with
  | none => exact .refl s
  | some payload =>
    cases payload with
    | malformed raw => exact .of_eq rfl rfl
    | valid m =>
      dsimp only
      unfold takeMessage
      cases m.role with
      | assistant =>
        have h := follows_foldl (follows_announce d) m.calls s
        simpa [List.map_filterMap] using h
      | user => simpa using follows_foldl (fun s r ↦ follows_resolve d s now r) m.results s
      | other => exact .refl s

/-! ## Callbacks -/

/-- A callback is handled as its cues say: each of the eight steps follows its own. -/
theorem follows_handle (s : Stage World) (now : Nat) (c : Callback) :
    Follows (c.cues now) s (s.handle d now c) := by
  have hplain := ((follows_cycleIndicator d s c).append (follows_writeReasoning d _ c)).append
    (follows_writeThrottle d _ c)
  have hstop := fun s : Stage World ↦ (follows_forceStop d s).ite (p := c.forceStop)
  exact (((hplain.append (hstop _)).append (follows_writeOutput d _ c)).append
    (follows_followTool d _ now c)).append (follows_followMessage d _ now c)

/-- A run follows the cues of its callbacks. -/
theorem follows_run (deliveries : List Delivery) (s : Stage World) :
    Follows (deliveries.flatMap Delivery.cues) s (Stage.run d deliveries s) := by
  induction deliveries generalizing s with
  | nil => exact .refl s
  | cons x rest ih => exact (follows_handle d s x.time x.callback).append (ih _)

end Stage

end AgentConsole
