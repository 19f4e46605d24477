import AgentConsole.Proofs.Presenter.SpinnerTrace
import AgentConsole.Proofs.Terminal.Slot

/-!
# A presenter at a terminal

What a presenter holds and what runs on the terminal are kept in two places.  Here they are tied
together.  The indicators that run are the one that the presenter holds and those that others hold
(`Stage.Attended`), whoever the others are.  For the spinners this is so only where there are no
others: then at most the spinner that is held runs (`Tracking.Minded`), as no spinner is let go of
without being halted.

The terminal may fail to write: all that is asked of a display is that it answers as a terminal
does.

* `Stage.Move.attended`, `Tracking.Minded.step` : what a move and a cue keep.
* `Stage.Alone` : a presenter that is the only one at its terminal; `Stage.alone_run` : it stays so.
* `Stage.Move.unrefused` : such a presenter is never refused an indicator.
* `Stage.forall_ok_run` : on a terminal that always writes all its calls succeed.
-/

namespace AgentConsole

/-- Nothing runs on a terminal, and the slot is free. -/
structure Terminal.Idle (t : Terminal) : Prop where
  unclaimed : t.claimed = false
  indicators : t.indicators = []
  spinners : t.spinners = []

theorem Terminal.idle_new (color ansi hidden : Bool) : (new color ansi hidden).Idle :=
  ⟨rfl, rfl, rfl⟩

theorem Terminal.Idle.orderly {t : Terminal} (h : t.Idle) : t.Orderly where
  single := by simp [h.indicators]
  claimed_iff := by simp [h.indicators, h.unclaimed]

namespace Display.ShowsOn

variable {World : Type} {d : Display World} {view : World → Terminal}

/-- A call to an indicator writes nothing, and so is always carried out. -/
theorem respond_indicator (hd : d.ShowsOn view) (n : Nat) (act : IndicatorAct) (w : World) :
    (d.respond (.indicator n act) w).1 = ((view w).actIndicator n act).1 ∧
      view (d.respond (.indicator n act) w).2 = ((view w).actIndicator n act).2 :=
  (hd (.indicator n act) w).eq_respond rfl

/-- To open an indicator does nothing to the terminal. -/
theorem respond_openIndicator (hd : d.ShowsOn view) (n : Nat) (console : Console) (w : World) :
    (d.respond (.openIndicator n console) w).1 = .ok ∧
      view (d.respond (.openIndicator n console) w).2 = view w :=
  (hd (.openIndicator n console) w).eq_respond rfl

/-- Calls that are about no indicator leave the slot alone. -/
theorem slot_eq (hd : d.ShowsOn view) {w w' : World} {es : List Event} (h : d.Leads w es w')
    (hes : ∀ e ∈ es, e.call.indicator? = none) :
    (view w').claimed = (view w).claimed ∧ (view w').indicators = (view w).indicators := by
  refine h.keeps (P := fun m ↦ (view m).claimed = (view w).claimed ∧
    (view m).indicators = (view w).indicators) ?_ ⟨rfl, rfl⟩
  intro e he m hm
  have hslot := (hd e.call m).slot_eq (Call.ne_indicator_of_indicator?_eq_none (hes e he))
  exact ⟨hslot.1.trans hm.1, hslot.2.trans hm.2⟩

/-- Calls that are about no spinner let at most those run that ran before. -/
theorem mem_spinners_of_forall (hd : d.ShowsOn view) {cs : List Call} {w : World} {m : Nat}
    (hcs : ∀ c ∈ cs, c.spinner? = none) (hm : m ∈ (view (d.after cs w)).spinners) :
    m ∈ (view w).spinners := by
  rcases hd.mem_spinners_after hm with ⟨hm, -⟩ | ⟨label, hstart⟩
  · exact hm
  · cases hcs _ hstart

end Display.ShowsOn

/-! ## Indicators -/

namespace Stage

variable {World : Type} {d : Display World} {view : World → Terminal} {others : List Nat}
  {s s' : Stage World}

/-- The indicators that run are the one that the presenter holds and those that others hold. -/
structure Attended (view : World → Terminal) (others : List Nat) (s : Stage World) : Prop where
  orderly : (view s.world).Orderly
  running : (view s.world).indicators.Perm (s.presenter.indicator.toList ++ others)
  /-- The next number is a new one. -/
  bounded : ∀ n ∈ (view s.world).indicators, n ≤ s.opened

namespace Attended

/-- Where neither the slot nor what is held has changed. -/
theorem of_slot_eq (h : s.Attended view others)
    (hslot : (view s'.world).claimed = (view s.world).claimed ∧
      (view s'.world).indicators = (view s.world).indicators)
    (hheld : s'.presenter.indicator = s.presenter.indicator) (hopened : s.opened ≤ s'.opened) :
    s'.Attended view others where
  orderly := h.orderly.of_slot_eq hslot
  running := by rw [hslot.2, hheld]; exact h.running
  bounded := by
    rw [hslot.2]
    exact fun n hn ↦ Nat.le_trans (h.bounded n hn) hopened

/-- While the presenter holds an indicator no other can run. -/
theorem eq_singleton {n : Nat} (h : s.Attended view others)
    (held : s.presenter.indicator = some n) :
    others = [] ∧ (view s.world).indicators = [n] := by
  have hrunning := h.running
  rw [held] at hrunning
  have hlen : others.length + 1 ≤ 1 :=
    Nat.le_trans (Nat.le_of_eq hrunning.length_eq.symm) h.orderly.single
  obtain rfl : others = [] := List.length_eq_zero_iff.mp (by omega)
  exact ⟨rfl, List.perm_singleton.mp hrunning⟩

/-- The next number is that of no indicator that runs. -/
theorem fresh (h : s.Attended view others) : s.opened + 1 ∉ (view s.world).indicators :=
  fun hn ↦ Nat.not_succ_le_self _ (h.bounded _ hn)

/-- While the presenter holds none, a new indicator starts exactly when no other one runs. -/
theorem startIndicator_eq (h : s.Attended view others) (hidle : s.presenter.indicator = none) :
    (view s.world).startIndicator (s.opened + 1) =
      if others = [] then (.ok, (view s.world).claimedBy (s.opened + 1))
      else (.failed .displayActive, view s.world) := by
  have hrunning := h.running
  rw [hidle] at hrunning
  have hnil : (view s.world).indicators = [] ↔ others = [] := by
    rw [← List.length_eq_zero_iff, hrunning.length_eq]
    exact List.length_eq_zero_iff
  rw [h.orderly.startIndicator_eq, if_neg h.fresh]
  simp only [hnil]

end Attended

/-- Whatever a presenter does, the indicators that run are the one it holds and those of the
others. -/
theorem Move.attended (hd : d.ShowsOn view) (hmove : Move d s s') (h : s.Attended view others) :
    s'.Attended view others := by
  have hopened := hmove.opened_le
  cases hmove with
  | follow cues follows spares =>
    obtain ⟨new, events, hnew⟩ := spares.events
    exact h.of_slot_eq (hd.slot_eq (spares.answered.leads events) hnew) spares.indicator hopened
  | stop n o held tracking events indicator answered =>
    obtain ⟨rfl, hone⟩ := h.eq_singleton held
    obtain ⟨-, hworld⟩ := answered.leads events
    have hview : view s'.world = (view s.world).released := by
      rw [hworld, (hd.respond_indicator n .stop s.world).2, Terminal.actIndicator,
        h.orderly.stopIndicator_eq, if_pos (by simp [hone])]
    refine ⟨?_, ?_, ?_⟩
    · exact hview ▸ Terminal.orderly_released _
    · rw [hview, indicator]
      exact .refl _
    · rw [hview]
      intro m hm
      cases hm
  | update n o held tracking events indicator answered =>
    obtain ⟨-, hworld⟩ := answered.leads events
    have hview : view s'.world = view s.world := by
      rw [hworld, (hd.respond_indicator n _ s.world).2, Terminal.actIndicator]
    exact h.of_slot_eq (by simp [hview]) (indicator.trans held.symm) hopened
  | start console o started idle tracking events indicator answered =>
    obtain ⟨-, hstarted, hworld⟩ := answered.leads events
    have hopen := (hd.respond_openIndicator (s.opened + 1) console s.world).2
    obtain ⟨houtcome, hview⟩ :=
      hd.respond_indicator (s.opened + 1) (.start "retrieving memories...")
      (d.respond (.openIndicator (s.opened + 1) console) s.world).2
    rw [hopen, Terminal.actIndicator, h.startIndicator_eq idle] at houtcome hview
    replace houtcome : started = _ := hstarted.trans houtcome
    rw [← hworld] at hview
    have hnumber : s'.opened = s.opened + 1 := congrArg Tracking.opened tracking
    by_cases hothers : others = []
    · rw [if_pos hothers] at houtcome hview
      refine ⟨?_, ?_, ?_⟩
      · exact hview ▸ Terminal.orderly_claimedBy _ _
      · rw [hview, indicator, houtcome, hothers]
        exact .refl _
      · rw [hview, hnumber]
        exact fun n hn ↦ Nat.le_of_eq (List.mem_singleton.mp hn)
    · rw [if_neg hothers] at houtcome hview
      refine h.of_slot_eq (by simp [hview]) ?_ hopened
      rw [indicator, houtcome, idle]
      rfl

/-- A presenter that is the only one at its terminal is never refused an indicator. -/
theorem Move.unrefused (hd : d.ShowsOn view) (hmove : Move d s s') (h : s.Attended view [])
    (hs : ∀ e ∈ s.events, e.outcome ≠ .failed .displayActive) :
    ∀ e ∈ s'.events, e.outcome ≠ .failed .displayActive := by
  have happend {new : List Event} (events : s'.events = s.events ++ new)
      (hnew : ∀ e ∈ new, e.outcome ≠ .failed .displayActive) :
      ∀ e ∈ s'.events, e.outcome ≠ .failed .displayActive := by
    rw [events]
    intro e he
    rcases List.mem_append.mp he with he | he
    · exact hs e he
    · exact hnew e he
  cases hmove with
  | follow cues follows spares =>
    obtain ⟨new, events, hnew⟩ := spares.events
    refine happend events ?_
    refine (spares.answered.leads events).forall_outcome (Q := (· ≠ .failed .displayActive)) ?_
    intro e he w
    exact (hd e.call w).ne_displayActive (Call.ne_indicator_of_indicator?_eq_none (hnew e he))
  | stop n o held tracking events indicator answered =>
    obtain ⟨houtcome, -⟩ := answered.leads events
    refine happend events (List.forall_mem_singleton.mpr ?_)
    rw [houtcome, (hd.respond_indicator n .stop s.world).1]
    intro hrefused
    cases hrefused
  | update n o held tracking events indicator answered =>
    obtain ⟨houtcome, -⟩ := answered.leads events
    refine happend events (List.forall_mem_singleton.mpr ?_)
    rw [houtcome, (hd.respond_indicator n _ s.world).1]
    intro hrefused
    cases hrefused
  | start console o started idle tracking events indicator answered =>
    obtain ⟨hopened, hstarted, -⟩ := answered.leads events
    obtain ⟨hopen, hview⟩ := hd.respond_openIndicator (s.opened + 1) console s.world
    refine happend events (List.forall_mem_cons.mpr ⟨?_, List.forall_mem_singleton.mpr ?_⟩)
    · rw [hopened, hopen]
      intro hrefused
      cases hrefused
    · rw [hstarted, (hd.respond_indicator _ _ _).1, hview, Terminal.actIndicator,
        h.startIndicator_eq idle]
      intro hrefused
      cases hrefused

end Stage

/-! ## Spinners -/

namespace Tracking

/-- A spinner is let go of only once it has been halted. -/
theorem spinner_step_eq_or_halted (t : Tracking) (q : Cue) :
    (t.step q).spinner = t.spinner ∨
      ∀ m, t.spinner = some m → ∃ act, act.halts = true ∧ .spinner m act ∈ t.calls q := by
  have hmem {m : Nat} (hm : t.spinner = some m) (act : SpinnerAct) :
      .spinner m act ∈ t.spinnerCalls act := mem_spinnerCalls_iff.mpr ⟨m, hm, rfl⟩
  cases q with
  | input now u =>
    by_cases hc : t.current = some u.id
    · left
      rw [step, observe_spinner, turn_of_eq now hc]
    · right
      intro m hm
      rw [calls_input_of_ne hc]
      exact ⟨.stop, rfl, List.mem_append_left _ (hmem hm .stop)⟩
  | result now id e =>
    simp only [step, conclude, calls, concludeCalls]
    split
    · exact .inl rfl
    · rename_i i _
      right
      intro m hm
      have hhalts : (Stage.finalAct e (i.summary now e)).halts = true := by
        cases e with
        | succeeded => rfl
        | failed => rfl
      exact ⟨_, hhalts, List.mem_append_left _ (hmem hm _)⟩
  | _ => exact .inl rfl

/-- At most the spinner that is held runs on the terminal. -/
structure Minded (t : Tracking) (terminal : Terminal) : Prop where
  held : ∀ m ∈ terminal.spinners, t.spinner = some m
  /-- The next number is a new one. -/
  bounded : ∀ m, t.spinner = some m → m ≤ t.opened

namespace Minded

variable {World : Type} {d : Display World} {view : World → Terminal} {t : Tracking} {w : World}

/-- The next number is that of no spinner that runs. -/
theorem fresh {terminal : Terminal} (h : t.Minded terminal) : t.opened + 1 ∉ terminal.spinners :=
  fun hm ↦ Nat.not_succ_le_self _ (h.bounded _ (h.held _ hm))

/-- Every cue lets at most the spinner run that is then held. -/
theorem step (hd : d.ShowsOn view) (h : t.Minded (view w)) (q : Cue) :
    (t.step q).Minded (view (d.after (t.calls q) w)) where
  held m hm := by
    rcases hd.mem_spinners_after hm with ⟨hm, hhalts⟩ | ⟨label, hstart⟩
    · have hheld := h.held m hm
      rcases t.spinner_step_eq_or_halted q with heq | hhalted
      · rw [heq, hheld]
      · obtain ⟨act, hact, hmem⟩ := hhalted m hheld
        exact absurd hmem (hhalts act hact)
    · obtain ⟨now, u, rfl, hc, rfl, -⟩ := start_mem_calls hstart
      rw [Tracking.step, observe_spinner, turn, if_neg hc]
  bounded m hm := by
    cases q with
    | input now u =>
      rw [Tracking.step, observe_spinner] at hm
      rw [Tracking.step, observe_opened]
      unfold turn at hm ⊢
      split at hm
      · rename_i hc
        rw [if_pos hc]
        exact h.bounded m hm
      · rename_i hc
        rw [if_neg hc]
        exact Nat.le_of_eq (Option.some.inj hm).symm
    | result now id e =>
      rw [Tracking.step, conclude] at hm ⊢
      cases hf : t.tools.find? id with
      | none =>
        rw [hf] at hm
        exact h.bounded m hm
      | some i =>
        rw [hf] at hm
        cases hm
    | indicate console => exact Nat.le_succ_of_le (h.bounded m hm)
    | write kind text endLine | throttle console delay | halt | announce name =>
      exact h.bounded m hm

theorem play (hd : d.ShowsOn view) (h : t.Minded (view w)) (cues : List Cue) :
    (t.play cues).Minded (view (d.after (t.trace cues) w)) := by
  induction cues generalizing t w with
  | nil => exact h
  | cons q rest ih =>
    rw [play_cons, trace_cons, Display.after_append]
    exact ih (h.step hd q)

/-- Where what is held is the same and no other spinner runs. -/
theorem mono {t' : Tracking} {terminal terminal' : Terminal} (h : t.Minded terminal)
    (hrun : ∀ m ∈ terminal'.spinners, m ∈ terminal.spinners)
    (hspinner : t'.spinner = t.spinner)
    (hopened : t.opened ≤ t'.opened) : t'.Minded terminal' where
  held m hm := hspinner.trans (h.held m (hrun m hm))
  bounded m hm := Nat.le_trans (h.bounded m (hspinner.symm.trans hm)) hopened

end Minded

end Tracking

/-! ## A presenter on its own -/

namespace Stage

variable {World : Type} {d : Display World} {view : World → Terminal} {s s' : Stage World}

theorem Move.minded (hd : d.ShowsOn view) (hmove : Move d s s')
    (h : s.tracking.Minded (view s.world)) : s'.tracking.Minded (view s'.world) := by
  have hopened : s.tracking.opened ≤ s'.tracking.opened := hmove.opened_le
  have hrun {new : List Event} (events : s'.events = s.events ++ new)
      (hnew : ∀ e ∈ new, e.call.spinner? = none) :
      ∀ m ∈ (view s'.world).spinners, m ∈ (view s.world).spinners := by
    intro m hm
    rw [(hmove.answered.leads events).eq_after] at hm
    refine hd.mem_spinners_of_forall ?_ hm
    simpa using hnew
  cases hmove with
  | follow cues follows spares =>
    rw [follows.tracking, spares.world_eq follows]
    exact h.play hd cues
  | stop n o held tracking events indicator answered
  | update n o held tracking events indicator answered =>
    exact h.mono (hrun events (by simp [Call.spinner?])) (by rw [tracking]) hopened
  | start console o started idle tracking events indicator answered =>
    exact h.mono (hrun events (by simp [Call.spinner?])) (by rw [tracking]; rfl) hopened

/-- The presenter is the only one at its terminal. -/
structure Alone (view : World → Terminal) (s : Stage World) : Prop where
  attended : s.Attended view []
  minded : s.tracking.Minded (view s.world)

theorem Move.alone (hd : d.ShowsOn view) (hmove : Move d s s') (h : s.Alone view) : s'.Alone view :=
  ⟨hmove.attended hd h.attended, hmove.minded hd h.minded⟩

theorem Moves.alone (hd : d.ShowsOn view) (hmoves : Moves d s s') (h : s.Alone view) :
    s'.Alone view :=
  hmoves.keeps (fun hmove ↦ hmove.alone hd) h

/-- A new presenter comes to a terminal on which nothing runs. -/
theorem alone_enter {w : World} (h : (view w).Idle) (notifies : Bool) (opened : Nat) :
    (Stage.enter (.new notifies) opened w).Alone view where
  attended :=
    ⟨h.orderly, by simp [enter, Presenter.new, h.indicators], by simp [enter, h.indicators]⟩
  minded := ⟨by simp [enter, h.spinners], nofun⟩

theorem alone_run (hd : d.ShowsOn view) {w : World} (h : (view w).Idle) (deliveries : List Delivery)
    (notifies : Bool) (opened : Nat) :
    (Stage.run d deliveries (.enter (.new notifies) opened w)).Alone view :=
  Moves.alone hd (moves_run d deliveries _) (alone_enter h notifies opened)

/-- The only presenter at a terminal is never refused an indicator. -/
theorem Moves.unrefused (hd : d.ShowsOn view) (hmoves : Moves d s s') (h : s.Alone view)
    (hs : ∀ e ∈ s.events, e.outcome ≠ .failed .displayActive) :
    ∀ e ∈ s'.events, e.outcome ≠ .failed .displayActive := by
  have hboth := hmoves.keeps (P := fun m ↦
    m.Alone view ∧ ∀ e ∈ m.events, e.outcome ≠ .failed .displayActive)
    (fun hmove ⟨hm, he⟩ ↦ ⟨hmove.alone hd hm, hmove.unrefused hd hm.attended he⟩)
    ⟨h, hs⟩
  exact hboth.2

end Stage

/-! ## A terminal that always writes -/

/-- On a terminal that always writes a call can fail only by being refused. -/
theorem Terminal.respond_ok_or_refused (c : Call) (t : Terminal) :
    (t.respond c).1 = .ok ∨ (t.respond c).1 = .failed .displayActive := by
  cases c with
  | indicator n act =>
    cases act with
    | start label =>
      rw [respond, actIndicator, startIndicator]
      split
      · exact .inl rfl
      · split
        · exact .inr rfl
        · exact .inl rfl
    | update label | stop => exact .inl rfl
  | _ => exact .inl rfl

namespace Stage

/-- For the only presenter at a terminal that always writes, all calls succeed. -/
theorem Moves.forall_ok {s s' : Stage Terminal} (hmoves : Moves Terminal.display s s')
    (h : s.Alone id) (hs : ∀ e ∈ s.events, e.outcome = .ok) :
    ∀ e ∈ s'.events, e.outcome = .ok := by
  obtain ⟨new, events⟩ := hmoves.events_mono
  have hunrefused := Moves.unrefused Terminal.display_showsOn hmoves h
    (fun e he ↦ by rw [hs e he]; exact nofun)
  have hnew := (Moves.answered hmoves).leads events.symm |>.forall_outcome
    (Q := fun o ↦ o = .ok ∨ o = .failed .displayActive)
    (fun e _ t ↦ Terminal.respond_ok_or_refused e.call t)
  intro e he
  have hmem := he
  rw [← events] at hmem
  rcases List.mem_append.mp hmem with hmem | hmem
  · exact hs e hmem
  · exact (hnew e hmem).resolve_right (hunrefused e he)

theorem forall_ok_run {t : Terminal} (h : t.Idle) (deliveries : List Delivery) (notifies : Bool)
    (opened : Nat) :
    ∀ e ∈ (Stage.run Terminal.display deliveries (.enter (.new notifies) opened t)).events,
      e.outcome = .ok := by
  have halone : (Stage.enter (.new notifies) opened t).Alone id := alone_enter h notifies opened
  exact Moves.forall_ok (moves_run _ deliveries _) halone nofun

end Stage

end AgentConsole
