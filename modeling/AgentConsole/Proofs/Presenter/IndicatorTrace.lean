import AgentConsole.Proofs.Presenter.Move

/-!
# The life of an indicator

An indicator is held from a successful start until it is stopped, and while one is held no other is
opened.  `IndicatorTrace` is the language of the events that come of this, and says which indicator
is held after them.  How a start ends decides what may follow, so that this is about events and not
about calls.

* `Live` : an indicator has started, and has not been stopped.
* `IndicatorTrace.held_iff` : the indicator that is held is the live one.
* `Stage.Move.indicatorsInOrder` : every move stays within the language.
* `Stage.indicatorTrace_run` : so does every run.
-/

namespace AgentConsole

/-- Whether an event is the successful start of an indicator. -/
def Event.starts (n : Nat) (e : Event) : Bool :=
  match e.call with
  | .indicator m (.start _) => m = n && e.outcome.isOk
  | _ => false

/-- Whether an event is a stop of an indicator, however it ended. -/
def Event.stops (n : Nat) (e : Event) : Bool :=
  match e.call with
  | .indicator m .stop => m = n
  | _ => false

/-- In some events an indicator has started. -/
def HasStarted (n : Nat) (es : List Event) : Prop := ∃ e ∈ es, e.starts n = true

instance (n : Nat) (es : List Event) : Decidable (HasStarted n es) :=
  inferInstanceAs (Decidable (∃ e ∈ es, _))

/-- After some events an indicator is live: it has started, and has not been stopped. -/
def Live (n : Nat) (es : List Event) : Prop :=
  HasStarted n es ∧ ∀ e ∈ es, e.stops n = false

instance (n : Nat) (es : List Event) : Decidable (Live n es) :=
  inferInstanceAs (Decidable (_ ∧ _))

/-- Events in which the indicators live one after the other, and the indicator that is held after
them. -/
inductive IndicatorTrace : List Event → Option Nat → Prop
  | /-- At first there is no indicator. -/
    nil : IndicatorTrace [] none
  | /-- An event that is about no indicator. -/
    aside {es : List Event} {held : Option Nat} {e : Event} : IndicatorTrace es held →
      e.call.indicator? = none → IndicatorTrace (es ++ [e]) held
  | /-- While none is held a new indicator is opened, but does not start.  It is not held. -/
    refuse {es : List Event} {n : Nat} (console : Console) (o : Outcome) (fault : Fault) :
      IndicatorTrace es none → (∀ e ∈ es, e.call.indicator? ≠ some n) →
      IndicatorTrace (es ++ [⟨.openIndicator n console, o⟩,
        ⟨.indicator n (.start "retrieving memories..."), .failed fault⟩]) none
  | /-- While none is held a new indicator is opened and starts.  It is held from now on. -/
    start {es : List Event} {n : Nat} (console : Console) (o : Outcome) :
      IndicatorTrace es none → (∀ e ∈ es, e.call.indicator? ≠ some n) →
      IndicatorTrace (es ++ [⟨.openIndicator n console, o⟩,
        ⟨.indicator n (.start "retrieving memories..."), .ok⟩]) (some n)
  | /-- The indicator that is held is updated. -/
    update {es : List Event} {n : Nat} (o : Outcome) : IndicatorTrace es (some n) →
      IndicatorTrace (es ++ [⟨.indicator n (.update "thinking..."), o⟩]) (some n)
  | /-- The indicator that is held is stopped, and however this ends it is not held any more. -/
    stop {es : List Event} {n : Nat} (o : Outcome) : IndicatorTrace es (some n) →
      IndicatorTrace (es ++ [⟨.indicator n .stop, o⟩]) none

/-! ## Live indicators -/

theorem Event.indicator?_of_starts {n : Nat} {e : Event} (h : e.starts n = true) :
    e.call.indicator? = some n := by
  obtain ⟨call, outcome⟩ := e
  unfold starts at h
  split at h
  · rename_i m label hcall
    simp only [Bool.and_eq_true, decide_eq_true_eq] at h
    rw [show call = .indicator m (.start label) from hcall, h.1]
    rfl
  · cases h

theorem Event.indicator?_of_stops {n : Nat} {e : Event} (h : e.stops n = true) :
    e.call.indicator? = some n := by
  obtain ⟨call, outcome⟩ := e
  unfold stops at h
  split at h
  · rename_i m hcall
    rw [show call = .indicator m .stop from hcall, of_decide_eq_true h]
    rfl
  · cases h

@[simp] theorem not_hasStarted_nil (n : Nat) : ¬ HasStarted n [] := by
  simp [HasStarted]

theorem hasStarted_append_iff {n : Nat} {es new : List Event} :
    HasStarted n (es ++ new) ↔ HasStarted n es ∨ HasStarted n new := by
  simp only [HasStarted, List.mem_append, or_and_right, exists_or]

theorem not_hasStarted_of_forall {n : Nat} {es : List Event}
    (h : ∀ e ∈ es, e.starts n = false) :
    ¬ HasStarted n es := by
  rintro ⟨e, he, hs⟩
  exact absurd hs (Bool.eq_false_iff.mp (h e he))

/-- An indicator that is opened has started if its start succeeds. -/
theorem hasStarted_start_iff {n m : Nat} {console : Console} {label : String}
    {o started : Outcome} :
    HasStarted n [⟨.openIndicator m console, o⟩, ⟨.indicator m (.start label), started⟩] ↔
      m = n ∧ started.isOk = true := by
  simp [HasStarted, Event.starts]

@[simp] theorem not_live_nil (n : Nat) : ¬ Live n [] := by
  simp [Live]

theorem live_append_iff {n : Nat} {es new : List Event} :
    Live n (es ++ new) ↔ (HasStarted n es ∨ HasStarted n new) ∧
      (∀ e ∈ es, e.stops n = false) ∧ ∀ e ∈ new, e.stops n = false := by
  simp only [Live, hasStarted_append_iff, List.mem_append, or_imp, forall_and]

/-- Events that neither start nor stop an indicator change nothing for it. -/
theorem live_append_of_forall {n : Nat} {es new : List Event}
    (h : ∀ e ∈ new, e.starts n = false ∧ e.stops n = false) :
    Live n (es ++ new) ↔ Live n es := by
  rw [live_append_iff, or_iff_left (not_hasStarted_of_forall fun e he ↦ (h e he).1),
    and_iff_left fun e he ↦ (h e he).2]
  rfl

/-- Events that are about other things neither start nor stop an indicator. -/
theorem Event.quiet_of_indicator?_ne {n : Nat} {e : Event} (h : e.call.indicator? ≠ some n) :
    e.starts n = false ∧ e.stops n = false :=
  ⟨Bool.eq_false_iff.mpr fun hs ↦ h (indicator?_of_starts hs),
    Bool.eq_false_iff.mpr fun hs ↦ h (indicator?_of_stops hs)⟩

namespace IndicatorTrace

/-- The indicator that is held is the one that is live. -/
theorem held_iff {es : List Event} {held : Option Nat} (h : IndicatorTrace es held) (n : Nat) :
    held = some n ↔ Live n es := by
  induction h with
  | nil => simp
  | aside _ he ih =>
    rw [live_append_of_forall, ih]
    intro e hmem
    obtain rfl := List.mem_singleton.mp hmem
    exact Event.quiet_of_indicator?_ne (by simp [he])
  | refuse console o fault _ _ ih =>
    rw [live_append_of_forall, ih]
    simp [Event.starts, Event.stops, Outcome.isOk]
  | @start es m console o _ hfresh ih =>
    by_cases hm : m = n
    · subst hm
      have hstart : HasStarted m [⟨.openIndicator m console, o⟩,
          ⟨.indicator m (.start "retrieving memories..."), .ok⟩] :=
        hasStarted_start_iff.mpr ⟨rfl, rfl⟩
      refine iff_of_true rfl (live_append_iff.mpr ⟨.inr hstart, ?_, ?_⟩)
      · exact fun e he ↦ (Event.quiet_of_indicator?_ne (hfresh e he)).2
      · simp [Event.stops]
    · rw [live_append_of_forall, ← ih]
      · simp [hm]
      · simp [Event.starts, Event.stops, hm]
  | update o _ ih =>
    rw [live_append_of_forall, ih]
    simp [Event.starts, Event.stops]
  | @stop es m o _ ih =>
    by_cases hm : m = n
    · simp [live_append_iff, Event.stops, hm]
    · rw [live_append_of_forall, ← ih]
      · simp [hm]
      · simp [Event.starts, Event.stops, hm]

/-- The indicator that is held has been called. -/
theorem exists_mem_of_held {es : List Event} {n : Nat} (h : IndicatorTrace es (some n)) :
    ∃ e ∈ es, e.call.indicator? = some n := by
  obtain ⟨⟨e, he, hs⟩, -⟩ := (h.held_iff n).mp rfl
  exact ⟨e, he, Event.indicator?_of_starts hs⟩

theorem asides {es new : List Event} {held : Option Nat} (h : IndicatorTrace es held)
    (hnew : ∀ e ∈ new, e.call.indicator? = none) : IndicatorTrace (es ++ new) held := by
  induction new generalizing es with
  | nil => simpa using h
  | cons e rest ih =>
    have he := h.aside (hnew e List.mem_cons_self)
    simpa using ih he fun e hmem ↦ hnew e (List.mem_cons_of_mem _ hmem)

end IndicatorTrace

namespace Stage

variable {World : Type}

/-! ## Moves -/

/-- The indicators of a stage live one after the other. -/
structure IndicatorsInOrder (s : Stage World) : Prop where
  trace : IndicatorTrace s.events s.presenter.indicator
  /-- The next number is a new one. -/
  bounded : ∀ e ∈ s.events, ∀ n, e.call.indicator? = some n → n ≤ s.opened

namespace IndicatorsInOrder

theorem enter (notifies : Bool) (opened : Nat) (w : World) :
    (enter (.new notifies) opened w).IndicatorsInOrder :=
  ⟨.nil, by simp [Stage.enter]⟩

/-- The indicator that is held has one of the numbers so far. -/
theorem held_le {s : Stage World} (h : s.IndicatorsInOrder) {n : Nat}
    (held : s.presenter.indicator = some n) : n ≤ s.opened := by
  have htrace := h.trace
  rw [held] at htrace
  obtain ⟨e, he, hn⟩ := htrace.exists_mem_of_held
  exact h.bounded e he n hn

/-- The next number is a new one. -/
theorem indicator?_ne {s : Stage World} (h : s.IndicatorsInOrder) :
    ∀ e ∈ s.events, e.call.indicator? ≠ some (s.opened + 1) := fun e he hn ↦
  Nat.not_succ_le_self s.opened (h.bounded e he _ hn)

/-- New events may be about the displays opened so far. -/
theorem bounded_append {s s' : Stage World} {new : List Event} (h : s.IndicatorsInOrder)
    (events : s'.events = s.events ++ new) (opened : s.opened ≤ s'.opened)
    (hnew : ∀ e ∈ new, ∀ n, e.call.indicator? = some n → n ≤ s'.opened) :
    ∀ e ∈ s'.events, ∀ n, e.call.indicator? = some n → n ≤ s'.opened := by
  intro e he n hn
  rw [events] at he
  rcases List.mem_append.mp he with he | he
  · exact Nat.le_trans (h.bounded e he n hn) opened
  · exact hnew e he n hn

end IndicatorsInOrder

theorem Move.indicatorsInOrder {d : Display World} {s s' : Stage World} (hmove : Move d s s')
    (h : s.IndicatorsInOrder) : s'.IndicatorsInOrder := by
  have htrace := h.trace
  have hopened := hmove.opened_le
  cases hmove with
  | follow cues follows spares =>
    obtain ⟨new, events, hnew⟩ := spares.events
    refine ⟨?_, h.bounded_append events hopened ?_⟩
    · rw [events, spares.indicator]
      exact htrace.asides hnew
    · simp +contextual [hnew]
  | stop n o held tracking events indicator =>
    have hn := Nat.le_trans (h.held_le held) hopened
    rw [held] at htrace
    refine ⟨?_, h.bounded_append events hopened (by simp [Call.indicator?, hn])⟩
    rw [events, indicator]
    exact htrace.stop o
  | update n o held tracking events indicator =>
    have hn := Nat.le_trans (h.held_le held) hopened
    rw [held] at htrace
    refine ⟨?_, h.bounded_append events hopened (by simp [Call.indicator?, hn])⟩
    rw [events, indicator]
    exact htrace.update o
  | start console o started idle tracking events indicator =>
    have hn : s.opened + 1 ≤ s'.opened := Nat.le_of_eq (congrArg Tracking.opened tracking).symm
    rw [idle] at htrace
    refine ⟨?_, h.bounded_append events hopened (by simp [Call.indicator?, hn])⟩
    rw [events, indicator]
    cases started with
    | ok => exact htrace.start console o h.indicator?_ne
    | failed fault => exact htrace.refuse console o fault h.indicator?_ne

theorem run_indicatorsInOrder (d : Display World) (deliveries : List Delivery) (notifies : Bool)
    (opened : Nat) (w : World) :
    (Stage.run d deliveries (.enter (.new notifies) opened w)).IndicatorsInOrder :=
  (moves_run d deliveries (.enter (.new notifies) opened w)).keeps Move.indicatorsInOrder
    (.enter notifies opened w)

/-- In every run of a new presenter the indicators live one after the other, and the presenter holds
the one that is live: it holds one if and only if an indicator has started and has not been
stopped. -/
theorem indicatorTrace_run (d : Display World) (deliveries : List Delivery) (notifies : Bool)
    (opened : Nat) (w : World) :
    let s := Stage.run d deliveries (.enter (.new notifies) opened w)
    IndicatorTrace s.events s.presenter.indicator ∧
      (s.presenter.indicator.isSome ↔ ∃ n, Live n s.events) := by
  intro s
  have h : s.IndicatorsInOrder := run_indicatorsInOrder d deliveries notifies opened w
  refine ⟨h.trace, ?_⟩
  rw [Option.isSome_iff_exists]
  exact exists_congr h.trace.held_iff

end Stage

end AgentConsole
