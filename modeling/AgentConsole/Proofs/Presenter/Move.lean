import AgentConsole.Proofs.Display.Answer
import AgentConsole.Proofs.Presenter.Performance
import Mathlib.Logic.Relation

/-!
# What a presenter does, one move at a time

The cues of a callback leave out what hangs on outcomes: whether an indicator is held, and with that
whether it is updated and stopped.  Here nothing is left out.  A presenter makes four kinds of moves
(`Stage.Move`): it follows cues that leave the indicator alone, or it stops, updates or starts an
indicator, and each move says which events it adds.  To the world it makes no difference but by
these (`Stage.Answered`).  Whatever holds of a new presenter and is kept by every move holds after
every run (`Stage.moves_run`).
-/

namespace AgentConsole

/-- The indicator that a call is about. -/
def Call.indicator? : Call → Option Nat
  | .openIndicator n _ | .indicator n _ => some n
  | .openSpinner _ | .spinner _ _ | .stream _ _ _ | .throttle _ _ | .notify _ _ => none

theorem Call.isSteady_of_indicator?_eq_none {c : Call} (h : c.indicator? = none) :
    c.isSteady = true := by
  cases c with
  | indicator n act => cases h
  | _ => rfl

theorem Call.ne_indicator_of_indicator?_eq_none {c : Call} (h : c.indicator? = none) (n : Nat)
    (act : IndicatorAct) : c ≠ .indicator n act := by
  rintro rfl
  cases h

namespace Stage

variable {World : Type}

/-- A presenter is what it tracks, and the indicator that it holds. -/
theorem presenter_eq_of_tracking_eq {s s' : Stage World} (h : s'.tracking = s.tracking)
    (hindicator : s'.presenter.indicator = s.presenter.indicator) : s'.presenter = s.presenter := by
  change Presenter.mk s'.tracking.notifies s'.presenter.indicator s'.tracking.spinner
    s'.tracking.current
    s'.tracking.tools = s.presenter
  rw [h, hindicator]
  rfl

/-- Between two stages no call has been made that is about an indicator, and the presenter still
holds the same one. -/
structure Spares (d : Display World) (s s' : Stage World) : Prop where
  events : ∃ new, s'.events = s.events ++ new ∧ ∀ e ∈ new, e.call.indicator? = none
  indicator : s'.presenter.indicator = s.presenter.indicator
  answered : Answered d s s'

namespace Spares

variable {d : Display World}

/-- Where there is neither a new event nor another indicator or world. -/
theorem of_eq {s s' : Stage World} (he : s'.events = s.events)
    (hi : s'.presenter.indicator = s.presenter.indicator) (hw : s'.world = s.world) :
    Spares d s s' :=
  ⟨⟨[], by simp [he], by simp⟩, hi, .of_eq he hw⟩

theorem refl (s : Stage World) : Spares d s s := of_eq rfl rfl rfl

theorem trans {s m s' : Stage World} (h : Spares d s m) (h' : Spares d m s') : Spares d s s' := by
  obtain ⟨new, he, hnew⟩ := h.events
  obtain ⟨more, he', hmore⟩ := h'.events
  refine ⟨⟨new ++ more, by rw [he', he, List.append_assoc], ?_⟩,
    h'.indicator.trans h.indicator, h.answered.trans h'.answered⟩
  intro e hmem
  rcases List.mem_append.mp hmem with hmem | hmem
  · exact hnew e hmem
  · exact hmore e hmem

theorem ite {p : Prop} [Decidable p] {s s' : Stage World} (h : Spares d s s') :
    Spares d s (if p then s' else s) := by
  split
  · exact h
  · exact .refl s

/-- Cues that are followed without an indicator are followed to the letter. -/
theorem calls_eq {cues : List Cue} {s s' : Stage World} (h : Spares d s s')
    (hf : Follows cues s s') :
    s'.calls = s.calls ++ s.tracking.trace cues := by
  obtain ⟨new, he, hnew⟩ := h.events
  have hsteady : (new.map (·.call)).filter Call.isSteady = new.map (·.call) := by
    refine List.filter_eq_self.mpr fun c hc ↦ ?_
    obtain ⟨e, hmem, rfl⟩ := List.mem_map.mp hc
    exact Call.isSteady_of_indicator?_eq_none (hnew e hmem)
  rw [calls, he, List.map_append, ← hf.filter_new he, hsteady]
  rfl

/-- The new calls are those of the cues. -/
theorem new_calls_eq {cues : List Cue} {s s' : Stage World} {new : List Event} (h : Spares d s s')
    (hf : Follows cues s s') (events : s'.events = s.events ++ new) :
    new.map (·.call) = s.tracking.trace cues := by
  have hcalls := h.calls_eq hf
  rw [calls, events, List.map_append] at hcalls
  exact List.append_cancel_left hcalls

/-- They change the world as their calls do. -/
theorem world_eq {cues : List Cue} {s s' : Stage World} (h : Spares d s s')
    (hf : Follows cues s s') :
    s'.world = d.after (s.tracking.trace cues) s.world := by
  obtain ⟨new, he, -⟩ := h.events
  rw [← h.new_calls_eq hf he]
  exact (h.answered.leads he).eq_after

/-- Cues that are followed without an indicator can be followed in one way only, but for the
remarks. -/
theorem eq_of_follows {cues : List Cue} {s s' a a' : Stage World} (h : Spares d s s')
    (hf : Follows cues s s') (h' : Spares d a a') (hf' : Follows cues a a')
    (heq : ∃ remarks, a = { s with remarks }) :
    ∃ remarks, a' = { s' with remarks } := by
  obtain ⟨remarks, rfl⟩ := heq
  have htracking : a'.tracking = s'.tracking := hf'.tracking.trans hf.tracking.symm
  have hpresenter : a'.presenter = s'.presenter :=
    presenter_eq_of_tracking_eq htracking (h'.indicator.trans h.indicator.symm)
  have hopened : a'.opened = s'.opened := congrArg Tracking.opened htracking
  have hworld : a'.world = s'.world := (h'.world_eq hf').trans (h.world_eq hf).symm
  have hevents : a'.events = s'.events := by
    obtain ⟨new, he, -⟩ := h.events
    obtain ⟨new', he', -⟩ := h'.events
    have hcalls := (h'.new_calls_eq hf' he').trans (h.new_calls_eq hf he).symm
    rw [he, he', (h'.answered.leads he').eq_of_calls_eq (h.answered.leads he) hcalls]
  exact ⟨a'.remarks, by rw [← hpresenter, ← hopened, ← hworld, ← hevents]⟩

end Spares

variable (d : Display World)

/-! ## Calls that are about no indicator -/

theorem spares_call (s : Stage World) {c : Call} (hc : c.indicator? = none) :
    Spares d s (s.call d c).2 :=
  ⟨⟨[⟨c, (s.call d c).1⟩], rfl, by simp [hc]⟩, rfl, answered_call d s c⟩

theorem spares_render (s : Stage World) (what : Rendering) {c : Call} (hc : c.indicator? = none) :
    Spares d s (s.render d what c) := by
  obtain ⟨remarks, h⟩ := s.render_eq d what c
  rw [h]
  exact (spares_call d s hc).trans (.of_eq rfl rfl rfl)

theorem spares_stopSpinner (s : Stage World) : Spares d s (s.stopSpinner d) := by
  unfold stopSpinner
  split
  · exact spares_render d s _ rfl
  · exact .refl s

theorem spares_writeReasoning (s : Stage World) (c : Callback) :
    Spares d s (s.writeReasoning d c) := by
  unfold writeReasoning
  split
  · exact spares_render d s _ rfl
  · exact .refl s

theorem spares_writeThrottle (s : Stage World) (c : Callback) :
    Spares d s (s.writeThrottle d c) := by
  unfold writeThrottle
  split
  · exact (spares_stopSpinner d s).trans (spares_render d _ _ rfl)
  · exact .refl s

theorem spares_writeThrottle_writeReasoning (s : Stage World) (c : Callback) :
    Spares d s ((s.writeReasoning d c).writeThrottle d c) :=
  (spares_writeReasoning d s c).trans (spares_writeThrottle d _ c)

theorem spares_writeOutput (s : Stage World) (c : Callback) : Spares d s (s.writeOutput d c) := by
  unfold writeOutput
  split
  · exact spares_render d s _ rfl
  · exact .refl s

theorem spares_switchTool (s : Stage World) (now : Nat) (id : ToolId) (name : String) :
    Spares d s (s.switchTool d now id name) := by
  have hopen : Spares d s ((s.stopSpinner d).openDisplay d .openSpinner).2 :=
    (spares_stopSpinner d s).trans ((spares_call d _ rfl).trans (.of_eq rfl rfl rfl))
  exact (hopen.trans (spares_render d _ _ rfl)).trans (.of_eq rfl rfl rfl)

theorem spares_observeInput (s : Stage World) (id : ToolId) (size : Nat) :
    Spares d s (s.observeInput d id size) := by
  unfold observeInput
  split
  · exact .refl s
  · dsimp only
    split
    · split
      · refine .trans ?_ (spares_render d _ _ rfl)
        exact .of_eq rfl rfl rfl
      · exact .of_eq rfl rfl rfl
    · exact .refl s

theorem spares_followTool (s : Stage World) (now : Nat) (c : Callback) :
    Spares d s (s.followTool d now c) := by
  unfold followTool
  split
  · unfold trackInput
    split
    · split
      · refine .trans ?_ (spares_observeInput d _ _ _)
        split
        · exact .refl s
        · exact spares_switchTool d s now _ _
      · exact .of_eq rfl rfl rfl
    · exact .refl s
  · exact .of_eq rfl rfl rfl
  · exact .refl s

theorem spares_announce (s : Stage World) (call : ToolCall) : Spares d s (s.announce d call) := by
  unfold announce
  split
  · exact .of_eq rfl rfl rfl
  · split
    · exact spares_render d s _ rfl
    · exact .refl s

theorem spares_conclude (s : Stage World) (now : Nat) (id : ToolId) (i : Invocation) (e : Ending) :
    Spares d s (s.conclude d now id i e) := by
  unfold conclude
  dsimp only
  cases s.presenter.spinner with
  | none => exact (spares_call d s rfl).ite.trans (.of_eq rfl rfl rfl)
  | some n =>
    have hlast :=
      spares_render d s .spinnerResult (c := .spinner n (finalAct e (i.summary now e))) rfl
    exact (hlast.trans (spares_call d _ rfl).ite).trans (.of_eq rfl rfl rfl)

theorem spares_resolve (s : Stage World) (now : Nat) (r : ToolResult) :
    Spares d s (s.resolve d now r) := by
  unfold resolve
  split
  · exact .of_eq rfl rfl rfl
  · split
    · exact .of_eq rfl rfl rfl
    · exact spares_conclude d s now _ _ _

theorem spares_foldl {α : Type} {act : Stage World → α → Stage World}
    (h : ∀ s x, Spares d s (act s x)) (items : List α) (s : Stage World) :
    Spares d s (items.foldl act s) := by
  induction items generalizing s with
  | nil => exact .refl s
  | cons x rest ih => exact (h s x).trans (ih (act s x))

theorem spares_followMessage (s : Stage World) (now : Nat) (c : Callback) :
    Spares d s (s.followMessage d now c) := by
  unfold followMessage
  split
  · unfold takeMessage
    split
    · exact spares_foldl d (spares_announce d) _ s
    · exact spares_foldl d (fun s r ↦ spares_resolve d s now r) _ s
    · exact .refl s
  · exact .of_eq rfl rfl rfl
  · exact .refl s

/-! ## Moves -/

/-- One move of a presenter. -/
inductive Move (s s' : Stage World) : Prop
  /-- It follows cues that leave the indicator alone. -/
  | follow (cues : List Cue) (follows : Follows cues s s') (spares : Spares d s s')
  /-- It stops the indicator that it holds, and lets go of it. -/
  | stop (n : Nat) (o : Outcome) (held : s.presenter.indicator = some n)
      (tracking : s'.tracking = s.tracking)
      (events : s'.events = s.events ++ [⟨.indicator n .stop, o⟩])
      (indicator : s'.presenter.indicator = none) (answered : Answered d s s')
  /-- It updates the indicator that it holds. -/
  | update (n : Nat) (o : Outcome) (held : s.presenter.indicator = some n)
      (tracking : s'.tracking = s.tracking)
      (events : s'.events = s.events ++ [⟨.indicator n (.update "thinking..."), o⟩])
      (indicator : s'.presenter.indicator = some n) (answered : Answered d s s')
  /-- While it holds none it opens and starts an indicator, and holds that if it has started. -/
  | start (console : Console) (o started : Outcome) (idle : s.presenter.indicator = none)
      (tracking : s'.tracking = s.tracking.step (.indicate console))
      (events : s'.events = s.events ++ [⟨.openIndicator (s.opened + 1) console, o⟩,
        ⟨.indicator (s.opened + 1) (.start "retrieving memories..."), started⟩])
      (indicator : s'.presenter.indicator = if started.isOk then some (s.opened + 1) else none)
      (answered : Answered d s s')

/-- Any number of moves. -/
abbrev Moves : Stage World → Stage World → Prop := Relation.ReflTransGen (Move d)

variable {d}

theorem Move.answered {s s' : Stage World} (h : Move d s s') : Answered d s s' := by
  cases h with
  | follow cues follows spares => exact spares.answered
  | stop n o held tracking events indicator answered => exact answered
  | update n o held tracking events indicator answered => exact answered
  | start console o started idle tracking events indicator answered => exact answered

/-- What every move keeps, all moves keep. -/
theorem Moves.keeps {P : Stage World → Prop} (hP : ∀ {s s'}, Move d s s' → P s → P s')
    {s s' : Stage World} (h : Moves d s s') (hs : P s) : P s' := by
  induction h with
  | refl => exact hs
  | tail _ hmove ih => exact hP hmove ih

theorem Moves.ite {p : Prop} [Decidable p] {s s' : Stage World} (h : Moves d s s') :
    Moves d s (if p then s' else s) := by
  split
  · exact h
  · exact .refl

/-- No move takes back an event. -/
theorem Move.events_mono {s s' : Stage World} (h : Move d s s') : s.events <+: s'.events := by
  cases h with
  | follow cues follows spares =>
    obtain ⟨new, he, -⟩ := spares.events
    exact ⟨new, he.symm⟩
  | stop n o held tracking events indicator => exact ⟨_, events.symm⟩
  | update n o held tracking events indicator => exact ⟨_, events.symm⟩
  | start console o started idle tracking events indicator => exact ⟨_, events.symm⟩

theorem Moves.answered {s s' : Stage World} (h : Moves d s s') : Answered d s s' :=
  h.keeps (P := Answered d s) (fun hmove hs ↦ hs.trans hmove.answered) (.refl s)

theorem Moves.events_mono {s s' : Stage World} (h : Moves d s s') : s.events <+: s'.events :=
  h.keeps (P := fun m ↦ s.events <+: m.events) (fun hmove hs ↦ hs.trans hmove.events_mono)
    List.prefix_rfl

/-- No display is ever taken back. -/
theorem Move.opened_le {s s' : Stage World} (h : Move d s s') : s.opened ≤ s'.opened := by
  change s.tracking.opened ≤ s'.tracking.opened
  cases h with
  | follow cues follows spares =>
    rw [follows.tracking]
    exact s.tracking.opened_le_play cues
  | stop n o held tracking events indicator => exact Nat.le_of_eq (by rw [tracking])
  | update n o held tracking events indicator => exact Nat.le_of_eq (by rw [tracking])
  | start console o started idle tracking events indicator =>
    rw [tracking]
    exact Nat.le_succ _

theorem Moves.opened_le {s s' : Stage World} (h : Moves d s s') : s.opened ≤ s'.opened :=
  h.keeps (P := fun m ↦ s.opened ≤ m.opened) (fun hmove hs ↦ Nat.le_trans hs hmove.opened_le)
    (Nat.le_refl _)

variable (d)

theorem answered_tolerate (s : Stage World) (c : Call) : Answered d s (s.tolerate d c).2 := by
  obtain ⟨remarks, h⟩ := s.tolerate_eq d c
  rw [h]
  exact answered_call d s c

theorem move_dropIndicator {s : Stage World} {n : Nat} (h : s.presenter.indicator = some n) :
    Move d s (s.dropIndicator d) := by
  obtain ⟨remarks, ht⟩ := s.tolerate_eq d (.indicator n .stop)
  unfold dropIndicator
  rw [h]
  dsimp only
  rw [ht]
  exact .stop n _ h rfl rfl rfl (answered_call d s _)

@[simp] theorem dropIndicator_indicator (s : Stage World) :
    (s.dropIndicator d).presenter.indicator = none := by
  unfold dropIndicator
  split
  · assumption
  · rfl

@[simp] theorem dropIndicator_opened (s : Stage World) : (s.dropIndicator d).opened = s.opened :=
  congrArg Tracking.opened (follows_dropIndicator d s).tracking

theorem dropIndicator_of_idle {s : Stage World} (h : s.presenter.indicator = none) :
    s.dropIndicator d = s := by
  unfold dropIndicator
  rw [h]

theorem moves_dropIndicator (s : Stage World) : Moves d s (s.dropIndicator d) := by
  cases h : s.presenter.indicator with
  | none =>
    rw [dropIndicator_of_idle d h]
  | some n => exact .single (move_dropIndicator d h)

theorem tolerate_fst (s : Stage World) (c : Call) : (s.tolerate d c).1 = (s.call d c).1.isOk := by
  unfold tolerate
  split <;> rename_i h <;> rw [h] <;> rfl

/-- Starting an indicator adds one event, and the indicator is held if it has started. -/
theorem exists_start (s : Stage World) (n : Nat) (c : Call) (hidle : s.presenter.indicator = none) :
    ∃ started remarks, (if (s.tolerate d c).1 then
        { (s.tolerate d c).2 with
          presenter := { (s.tolerate d c).2.presenter with indicator := some n } }
      else (s.tolerate d c).2) =
      { (s.call d c).2 with
        presenter := { s.presenter with indicator := if started.isOk then some n else none }
        events := s.events ++ [⟨c, started⟩]
        remarks } := by
  obtain ⟨remarks, ht⟩ := s.tolerate_eq d c
  refine ⟨(s.call d c).1, remarks, ?_⟩
  rw [tolerate_fst, ht]
  split
  · rfl
  · rw [← hidle]
    rfl

/-- While none is held an indicator is opened and started, and held if it has started. -/
theorem exists_showIndicator {s : Stage World} (hidle : s.presenter.indicator = none)
    (console : Console) :
    ∃ o started, (s.showIndicator d console).tracking = s.tracking.step (.indicate console) ∧
      (s.showIndicator d console).events = s.events ++
        [⟨.openIndicator (s.opened + 1) console, o⟩,
          ⟨.indicator (s.opened + 1) (.start "retrieving memories..."), started⟩] ∧
      (s.showIndicator d console).presenter.indicator =
        if started.isOk then some (s.opened + 1) else none := by
  unfold showIndicator
  rw [dropIndicator_of_idle d hidle]
  obtain ⟨started, remarks, h⟩ := exists_start d (s.openDisplay d (.openIndicator · console)).2
    (s.opened + 1) (.indicator (s.opened + 1) (.start "retrieving memories...")) hidle
  refine ⟨(s.call d (.openIndicator (s.opened + 1) console)).1, started, ?_, ?_, ?_⟩
  · exact (congrArg Stage.tracking h).trans rfl
  · exact (congrArg Stage.events h).trans (List.append_assoc ..)
  · exact congrArg (·.presenter.indicator) h

/-- The indicator that is held is dropped before another one is shown. -/
theorem showIndicator_dropIndicator (s : Stage World) (console : Console) :
    (s.dropIndicator d).showIndicator d console = s.showIndicator d console := by
  unfold showIndicator
  rw [dropIndicator_of_idle d (dropIndicator_indicator d s)]

theorem answered_showIndicator {s : Stage World} (hidle : s.presenter.indicator = none)
    (console : Console) : Answered d s (s.showIndicator d console) := by
  have hopen : Answered d s (s.openDisplay d (.openIndicator · console)).2 := answered_call d s _
  have hstart := answered_tolerate d (s.openDisplay d (.openIndicator · console)).2
    (.indicator (s.opened + 1) (.start "retrieving memories..."))
  refine (hopen.trans hstart).trans ?_
  unfold showIndicator openDisplay
  rw [dropIndicator_of_idle d hidle]
  dsimp only
  split
  · exact .of_eq rfl rfl
  · exact .refl _

theorem moves_showIndicator (s : Stage World) (console : Console) :
    Moves d s (s.showIndicator d console) := by
  have hidle := dropIndicator_indicator d s
  obtain ⟨o, started, tracking, events, indicator⟩ := exists_showIndicator d hidle console
  rw [← showIndicator_dropIndicator]
  exact (moves_dropIndicator d s).tail (.start console o started hidle tracking events indicator
    (answered_showIndicator d hidle console))

@[simp] theorem updateIndicator_indicator (s : Stage World) :
    (s.updateIndicator d).presenter.indicator = s.presenter.indicator := by
  unfold updateIndicator
  split
  · rfl
  · obtain ⟨remarks, h⟩ := s.tolerate_eq d (.indicator _ (.update "thinking..."))
    rw [h]
    rfl

theorem moves_updateIndicator (s : Stage World) : Moves d s (s.updateIndicator d) := by
  unfold updateIndicator
  cases h : s.presenter.indicator with
  | none => exact .refl
  | some n =>
    obtain ⟨remarks, ht⟩ := s.tolerate_eq d (.indicator n (.update "thinking..."))
    dsimp only
    rw [ht]
    exact .single (.update n _ h rfl rfl h (answered_call d s _))

theorem moves_cycleIndicator (s : Stage World) (c : Callback) : Moves d s (s.cycleIndicator d c) :=
  ((moves_dropIndicator d s).ite.trans (moves_showIndicator d _ _).ite).trans
    (moves_updateIndicator d _).ite

@[simp] theorem forceStop_indicator (s : Stage World) :
    (s.forceStop d).presenter.indicator = none := by
  unfold forceStop
  split
  · simp [*]
  · simp

theorem follows_stopSpinner (s : Stage World) : Follows [.halt] s (s.stopSpinner d) :=
  .single (stopSpinner_tracking d s) (stopSpinner_steadyCalls d s)

/-- A forced stop lets go of the indicator and then stops the spinner. -/
theorem exists_forceStop_eq (s : Stage World) :
    ∃ m, Moves d s m ∧ m.presenter.indicator = none ∧ s.forceStop d = m.stopSpinner d := by
  unfold forceStop
  cases h : s.presenter.indicator with
  | none => exact ⟨s, .refl, h, rfl⟩
  | some n =>
    obtain ⟨remarks, ht⟩ := s.render_eq d .indicatorStop (.indicator n .stop)
    dsimp only
    rw [ht]
    refine ⟨_, .single ?_, rfl, rfl⟩
    exact .stop n _ h rfl rfl rfl (answered_call d s _)

theorem moves_forceStop (s : Stage World) : Moves d s (s.forceStop d) := by
  obtain ⟨m, hmoves, -, heq⟩ := exists_forceStop_eq d s
  rw [heq]
  exact hmoves.tail (.follow _ (follows_stopSpinner d m) (spares_stopSpinner d m))

/-! ## Callbacks -/

/-- The first five steps: the stage is made ready. -/
def prepare (c : Callback) (s : Stage World) : Stage World :=
  let s := (s.cycleIndicator d c).writeReasoning d c |>.writeThrottle d c
  if c.forceStop then s.forceStop d else s

/-- The last three steps, which leave the indicator alone: output, tools and messages. -/
def present (now : Nat) (c : Callback) (s : Stage World) : Stage World :=
  ((s.writeOutput d c).followTool d now c).followMessage d now c

theorem handle_eq_present (s : Stage World) (now : Nat) (c : Callback) :
    s.handle d now c = (s.prepare d c).present d now c := rfl

theorem spares_present (s : Stage World) (now : Nat) (c : Callback) :
    Spares d s (s.present d now c) :=
  ((spares_writeOutput d s c).trans (spares_followTool d _ now c)).trans
    (spares_followMessage d _ now c)

theorem follows_present (s : Stage World) (now : Nat) (c : Callback) :
    Follows ((c.output?.map (.write .output · c.complete)).toList ++ c.inputCues now ++
      c.messageCues now) s (s.present d now c) :=
  ((follows_writeOutput d s c).append (follows_followTool d _ now c)).append
    (follows_followMessage d _ now c)

/-- What is left of making ready once the indicator has followed the life of the event loop. -/
theorem moves_cycleIndicator_prepare (s : Stage World) (c : Callback) :
    Moves d (s.cycleIndicator d c) (s.prepare d c) := by
  have hwrite (s : Stage World) : Move d s (s.writeReasoning d c) :=
    .follow _ (follows_writeReasoning d s c) (spares_writeReasoning d s c)
  have hthrottle (s : Stage World) : Move d s (s.writeThrottle d c) :=
    .follow _ (follows_writeThrottle d s c) (spares_writeThrottle d s c)
  exact (Relation.ReflTransGen.single (hwrite _)).tail (hthrottle _) |>.trans
    (moves_forceStop d _).ite

theorem moves_prepare (s : Stage World) (c : Callback) : Moves d s (s.prepare d c) :=
  (moves_cycleIndicator d s c).trans (moves_cycleIndicator_prepare d s c)

theorem moves_present (s : Stage World) (now : Nat) (c : Callback) :
    Moves d s (s.present d now c) :=
  .single (.follow _ (follows_present d s now c) (spares_present d s now c))

/-- A callback is handled by moves. -/
theorem moves_handle (s : Stage World) (now : Nat) (c : Callback) : Moves d s (s.handle d now c) :=
  (moves_prepare d s c).trans (moves_present d _ now c)

/-- A run is made of moves. -/
theorem moves_run (deliveries : List Delivery) (s : Stage World) :
    Moves d s (Stage.run d deliveries s) := by
  induction deliveries generalizing s with
  | nil => exact .refl
  | cons x rest ih => exact (moves_handle d s x.time x.callback).trans (ih _)

end Stage

end AgentConsole
