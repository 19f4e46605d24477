import AgentConsole.Proofs.Presenter.Conclusion
import AgentConsole.Proofs.Presenter.Move

/-!
# The life of a spinner

A spinner is created for a tool, shows its progress, and goes with its last line.  `SpinnerTrace` is
the language of the calls that come of this: one spinner at a time, each of them begun in the same
way, and stopped right before another one takes its place.  It says which spinner is held after the
calls.

* `SpinnerTrace.held_iff` : the spinner that is held is the latest one, as long as it is unfinished.
* `Tracking.mem_calls_cases` : which spinner a call of a cue is about.
* `Tracking.spinnersInOrder_step` : every cue stays within the language.
* `Stage.spinnerTrace_run` : so does every run.
-/

namespace AgentConsole

/-- The spinner that a call is about. -/
def Call.spinner? : Call → Option Nat
  | .openSpinner n | .spinner n _ => some n
  | .openIndicator _ _ | .indicator _ _ | .stream _ _ _ | .throttle _ _ | .notify _ _ => none

/-- Whether an act leaves a spinner to go on. -/
def SpinnerAct.isInterim : SpinnerAct → Bool
  | .update _ | .info _ | .stop => true
  | .start _ | .succeed _ | .fail _ => false

theorem SpinnerAct.isFinal_eq_false_of_isInterim {act : SpinnerAct} (h : act.isInterim = true) :
    act.isFinal = false := by
  cases act with
  | start label | succeed label | fail label => cases h
  | update label | info label | stop => rfl

/-- Calls in which the spinners live one after the other, and the spinner that is held after
them. -/
inductive SpinnerTrace : List Call → Option Nat → Prop
  | /-- At first there is no spinner. -/
    nil : SpinnerTrace [] none
  | /-- A call that is about no spinner. -/
    aside {cs : List Call} {held : Option Nat} {c : Call} : SpinnerTrace cs held →
      c.spinner? = none → SpinnerTrace (cs ++ [c]) held
  | /-- A new spinner is created, started and updated.  If another one is held, it has been stopped
    right before. -/
    create {cs : List Call} {held : Option Nat} {n : Nat} (name label : String) :
      SpinnerTrace cs held → (∀ c ∈ cs, c.spinner? ≠ some n) →
      (∀ m, held = some m → cs.getLast? = some (.spinner m .stop)) →
      SpinnerTrace (cs ++ [.openSpinner n, .spinner n (.start (name ++ ": Preparing...")),
        .spinner n (.update label)]) (some n)
  | /-- The spinner that is held goes on. -/
    interim {cs : List Call} {n : Nat} {act : SpinnerAct} : SpinnerTrace cs (some n) →
      act.isInterim = true → SpinnerTrace (cs ++ [.spinner n act]) (some n)
  | /-- The spinner that is held gets its last line. -/
    final {cs : List Call} {n : Nat} {act : SpinnerAct} : SpinnerTrace cs (some n) →
      act.isFinal = true → SpinnerTrace (cs ++ [.spinner n act]) none

/-- A spinner is the latest one, and has no last line. -/
def Unfinished (n : Nat) (cs : List Call) : Prop :=
  ∃ before after, cs = before ++ .openSpinner n :: after ∧ (∀ m, .openSpinner m ∉ after) ∧
    ∀ act, act.isFinal = true → .spinner n act ∉ after

theorem not_unfinished_nil (n : Nat) : ¬ Unfinished n [] := by
  rintro ⟨before, after, h, -⟩
  simp at h

theorem unfinished_append_singleton_iff {n : Nat} {cs : List Call} {c : Call} :
    Unfinished n (cs ++ [c]) ↔ c = .openSpinner n ∨
      Unfinished n cs ∧ (∀ m, c ≠ .openSpinner m) ∧
        ∀ act, act.isFinal = true → c ≠ .spinner n act := by
  constructor
  · rintro ⟨before, after, hcs, hopen, hfinal⟩
    -- The last call is either the creation itself or one of those that come after it.
    rcases List.eq_nil_or_concat after with rfl | ⟨after, last, rfl⟩
    · obtain ⟨-, hc⟩ := List.append_inj' hcs rfl
      exact .inl (List.singleton_inj.mp hc)
    · have hsplit : cs ++ [c] = (before ++ .openSpinner n :: after) ++ [last] := by simpa using hcs
      obtain ⟨rfl, hc⟩ := List.append_inj' hsplit rfl
      obtain rfl := List.singleton_inj.mp hc
      rw [List.concat_eq_append] at hopen hfinal
      simp only [List.mem_append, List.mem_singleton, not_or] at hopen hfinal
      exact .inr
        ⟨⟨before, after, rfl, fun m ↦ (hopen m).1, fun act hact ↦ (hfinal act hact).1⟩,
          fun m ↦ Ne.symm (hopen m).2, fun act hact ↦ Ne.symm (hfinal act hact).2⟩
  · rintro (rfl | ⟨⟨before, after, rfl, hopen, hfinal⟩, hc, hc'⟩)
    · exact ⟨cs, [], rfl, by simp, by simp⟩
    · refine ⟨before, after ++ [c], by simp, ?_, ?_⟩
      · intro m
        simp [hopen m, Ne.symm (hc m)]
      · intro act hact
        simp [hfinal act hact, Ne.symm (hc' act hact)]

theorem unfinished_append_create_iff {n m : Nat} {cs : List Call} :
    Unfinished n (cs ++ [.openSpinner m]) ↔ m = n := by
  simp [unfinished_append_singleton_iff]

theorem unfinished_append_act_iff {n m : Nat} {cs : List Call} {act : SpinnerAct} :
    Unfinished n (cs ++ [.spinner m act]) ↔
      Unfinished n cs ∧ (act.isFinal = true → m ≠ n) := by
  simp only [unfinished_append_singleton_iff, reduceCtorEq, false_or, ne_eq, not_false_eq_true,
    implies_true, true_and, Call.spinner.injEq, not_and]
  exact and_congr_right fun _ ↦
    ⟨fun h hact hm ↦ h act hact hm rfl, fun h act' hact' hm hact ↦ h (hact ▸ hact') hm⟩

namespace SpinnerTrace

/-- The spinner that is held is the latest one, as long as it has no last line. -/
theorem held_iff {cs : List Call} {held : Option Nat} (h : SpinnerTrace cs held) (n : Nat) :
    held = some n ↔ Unfinished n cs := by
  induction h with
  | nil => simp [not_unfinished_nil]
  | @aside cs held c _ hc ih =>
    have hopen : ∀ m, c ≠ .openSpinner m := by
      rintro m rfl
      cases hc
    have hact : ∀ m act, c ≠ .spinner m act := by
      rintro m act rfl
      cases hc
    rw [unfinished_append_singleton_iff, ih]
    simp [hopen, hact]
  | create name label _ _ _ _ =>
    rw [List.append_cons, List.append_cons, unfinished_append_act_iff, unfinished_append_act_iff,
      unfinished_append_create_iff]
    simp [SpinnerAct.isFinal]
  | interim _ hact ih =>
    rw [unfinished_append_act_iff, ← ih]
    simp [SpinnerAct.isFinal_eq_false_of_isInterim hact]
  | final _ hact ih =>
    rw [unfinished_append_act_iff, ← ih]
    simp [hact]

/-- The spinner that is held has been called. -/
theorem exists_mem_of_held {cs : List Call} {n : Nat} (h : SpinnerTrace cs (some n)) :
    ∃ c ∈ cs, c.spinner? = some n := by
  obtain ⟨before, after, rfl, -⟩ := (h.held_iff n).mp rfl
  exact ⟨.openSpinner n, by simp, rfl⟩

theorem asides {cs new : List Call} {held : Option Nat} (h : SpinnerTrace cs held)
    (hnew : ∀ c ∈ new, c.spinner? = none) : SpinnerTrace (cs ++ new) held := by
  induction new generalizing cs with
  | nil => simpa using h
  | cons c rest ih =>
    have hc := h.aside (hnew c List.mem_cons_self)
    simpa using ih hc fun c hmem ↦ hnew c (List.mem_cons_of_mem _ hmem)

end SpinnerTrace

/-! ## Cues -/

/-- Calls in which the spinners live one after the other, the one that is held, and how many
displays have been opened. -/
structure SpinnersInOrder (cs : List Call) (held : Option Nat) (opened : Nat) : Prop where
  trace : SpinnerTrace cs held
  /-- The next number is a new one. -/
  bounded : ∀ c ∈ cs, ∀ n, c.spinner? = some n → n ≤ opened

namespace SpinnersInOrder

variable {cs : List Call} {held : Option Nat} {opened : Nat}

theorem nil (opened : Nat) : SpinnersInOrder [] none opened := ⟨.nil, by simp⟩

theorem asides {new : List Call} {opened' : Nat} (h : SpinnersInOrder cs held opened)
    (hnew : ∀ c ∈ new, c.spinner? = none) (hopened : opened ≤ opened') :
    SpinnersInOrder (cs ++ new) held opened' := by
  refine ⟨h.trace.asides hnew, fun c hc n hn ↦ ?_⟩
  rcases List.mem_append.mp hc with hc | hc
  · exact Nat.le_trans (h.bounded c hc n hn) hopened
  · rw [hnew c hc] at hn
    cases hn

/-- The spinner that is held has one of the numbers so far. -/
theorem held_le {n : Nat} (h : SpinnersInOrder cs (some n) opened) : n ≤ opened := by
  obtain ⟨c, hc, hn⟩ := h.trace.exists_mem_of_held
  exact h.bounded c hc n hn

theorem bounded_append_act {n : Nat} (h : SpinnersInOrder cs (some n) opened) (act : SpinnerAct) :
    ∀ c ∈ cs ++ [.spinner n act], ∀ m, c.spinner? = some m → m ≤ opened := by
  intro c hc m hm
  rcases List.mem_append.mp hc with hc | hc
  · exact h.bounded c hc m hm
  · obtain rfl := List.mem_singleton.mp hc
    obtain rfl := Option.some.inj hm
    exact h.held_le

theorem interim {t : Tracking} (h : SpinnersInOrder cs t.spinner opened) (act : SpinnerAct)
    (hact : act.isInterim = true) :
    SpinnersInOrder (cs ++ t.spinnerCalls act) t.spinner opened := by
  unfold Tracking.spinnerCalls
  cases hs : t.spinner with
  | none => simpa [hs] using h
  | some n =>
    rw [hs] at h
    exact ⟨h.trace.interim hact, h.bounded_append_act act⟩

theorem final {t : Tracking} (h : SpinnersInOrder cs t.spinner opened) (act : SpinnerAct)
    (hact : act.isFinal = true) : SpinnersInOrder (cs ++ t.spinnerCalls act) none opened := by
  unfold Tracking.spinnerCalls
  cases hs : t.spinner with
  | none => simpa [hs] using h
  | some n =>
    rw [hs] at h
    exact ⟨h.trace.final hact, h.bounded_append_act act⟩

/-- The spinner that is held is stopped, and another one takes its place. -/
theorem create {t : Tracking} (h : SpinnersInOrder cs t.spinner t.opened) (name label : String) :
    SpinnersInOrder (cs ++ t.spinnerCalls .stop ++ [.openSpinner (t.opened + 1),
      .spinner (t.opened + 1) (.start (name ++ ": Preparing...")),
      .spinner (t.opened + 1) (.update label)]) (some (t.opened + 1)) (t.opened + 1) := by
  have hstop := h.interim .stop rfl
  refine ⟨hstop.trace.create name label ?_ ?_, ?_⟩
  · intro c hc hn
    exact absurd (hstop.bounded c hc _ hn) (by omega)
  · intro m hm
    simp [Tracking.spinnerCalls, hm]
  · intro c hc n hn
    rcases List.mem_append.mp hc with hc | hc
    · exact Nat.le_succ_of_le (hstop.bounded c hc n hn)
    · have hnew : c.spinner? = some (t.opened + 1) := by
        simp only [List.mem_cons, List.not_mem_nil, or_false] at hc
        rcases hc with rfl | rfl | rfl <;> rfl
      exact Nat.le_of_eq (Option.some.inj (hn.symm.trans hnew))

end SpinnersInOrder

namespace Tracking

/-- Input of another tool has a new spinner, which is updated at once as there is some input. -/
theorem calls_input_of_ne {t : Tracking} {u : ToolInput}
    (hc : t.current ≠ some u.id) (now : Nat) :
    t.calls (.input now u) = t.spinnerCalls .stop ++ [.openSpinner (t.opened + 1),
      .spinner (t.opened + 1) (.start (u.name ++ ": Preparing...")),
      .spinner (t.opened + 1) (.update (u.name ++ ": " ++ toString u.size ++ " chars"))] := by
  have hfind : (t.turn now u).tools.find? u.id = some (.start u.name now) := by
    simp [find?_turn, hc]
  have hturn : t.turnCalls u = t.spinnerCalls .stop ++ [.openSpinner (t.opened + 1),
      .spinner (t.opened + 1) (.start (u.name ++ ": Preparing..."))] := by
    simp [turnCalls, hc]
  have hobserve : (t.turn now u).observeCalls u =
      [.spinner (t.opened + 1) (.update (u.name ++ ": " ++ toString u.size ++ " chars"))] := by
    have hspinner : (t.turn now u).spinner = some (t.opened + 1) := by simp [turn, hc]
    simp [observeCalls, hfind, hspinner, Invocation.start, u.size_pos, spinnerCalls]
  rw [calls, hturn, hobserve, List.append_assoc]
  rfl

/-- Input of the current tool at most updates the spinner at hand. -/
theorem calls_input_of_eq_cases {t : Tracking} {u : ToolInput} (hc : t.current = some u.id)
    (now : Nat) :
    t.calls (.input now u) = [] ∨
      ∃ label, t.calls (.input now u) = t.spinnerCalls (.update label) := by
  simp only [calls, turnCalls, hc, turn_of_eq now hc, observeCalls, if_true, List.nil_append]
  split
  · exact .inl rfl
  · split
    · exact .inr ⟨_, rfl⟩
    · exact .inl rfl

/-- What a cue has to say to a spinner is said to the one at hand, which is not started again, or
else to the new one of a tool that is turned to. -/
theorem mem_calls_cases {t : Tracking} {q : Cue} {c : Call} (h : c ∈ t.calls q) :
    c.spinner? = none ∨
      (∃ act, (∀ label, act ≠ .start label) ∧ c ∈ t.spinnerCalls act) ∨
      ∃ now u, q = .input now u ∧ t.current ≠ some u.id ∧
        c.spinner? = some (t.opened + 1) := by
  cases q with
  | indicate console =>
    simp only [calls, List.mem_cons, List.not_mem_nil, or_false] at h
    rcases h with rfl | rfl <;> exact .inl rfl
  | write kind text endLine =>
    obtain rfl := List.mem_singleton.mp h
    exact .inl rfl
  | throttle console delay =>
    rcases List.mem_append.mp h with h | h
    · exact .inr (.inl ⟨.stop, by simp, h⟩)
    · obtain rfl := List.mem_singleton.mp h
      exact .inl rfl
  | halt => exact .inr (.inl ⟨.stop, by simp, h⟩)
  | announce name => exact .inr (.inl ⟨.info ("Starting " ++ name ++ "..."), by simp, h⟩)
  | input now u =>
    by_cases hc : t.current = some u.id
    · rcases calls_input_of_eq_cases hc now with hcalls | ⟨label, hcalls⟩
      · rw [hcalls] at h
        cases h
      · exact .inr (.inl ⟨.update label, by simp, hcalls ▸ h⟩)
    · rw [calls_input_of_ne hc] at h
      rcases List.mem_append.mp h with h | h
      · exact .inr (.inl ⟨.stop, by simp, h⟩)
      · refine .inr (.inr ⟨now, u, rfl, hc, ?_⟩)
        simp only [List.mem_cons, List.not_mem_nil, or_false] at h
        rcases h with rfl | rfl | rfl <;> rfl
  | result now id e =>
    simp only [calls, concludeCalls] at h
    split at h
    · cases h
    · rcases List.mem_append.mp h with h | h
      · exact .inr (.inl ⟨_, by cases e <;> simp [Stage.finalAct], h⟩)
      · obtain rfl := List.mem_singleton.mp (List.mem_ite_nil_right.mp h).2
        exact .inl rfl

/-- Only the input of another tool starts a spinner, which is a new one and says the name of the
tool. -/
theorem start_mem_calls {t : Tracking} {q : Cue} {n : Nat} {label : String}
    (h : .spinner n (.start label) ∈ t.calls q) :
    ∃ now u, q = .input now u ∧ t.current ≠ some u.id ∧ n = t.opened + 1 ∧
      label = u.name ++ ": Preparing..." := by
  have hcall {act : SpinnerAct} (hact : ∀ label, act ≠ .start label) :
      .spinner n (.start label) ∉ t.spinnerCalls act := by
    intro hmem
    obtain ⟨m, -, hm⟩ := mem_spinnerCalls_iff.mp hmem
    exact hact label (Call.spinner.inj hm).2
  rcases mem_calls_cases h with hnone | ⟨act, hact, hmem⟩ | ⟨now, u, rfl, hc, -⟩
  · cases hnone
  · exact absurd hmem (hcall hact)
  · rw [calls_input_of_ne hc, List.mem_append] at h
    rcases h with h | h
    · exact absurd h (hcall (by simp))
    · simp only [List.mem_cons, Call.spinner.injEq, SpinnerAct.start.injEq,
        reduceCtorEq, and_false, List.not_mem_nil, or_false, false_or] at h
      exact ⟨now, u, rfl, hc, h⟩

theorem spinnersInOrder_input {t : Tracking} {cs : List Call}
    (h : SpinnersInOrder cs t.spinner t.opened) (now : Nat) (u : ToolInput) :
    SpinnersInOrder (cs ++ t.calls (.input now u)) (t.step (.input now u)).spinner
      (t.step (.input now u)).opened := by
  rw [step, observe_spinner, observe_opened]
  by_cases hc : t.current = some u.id
  · rw [turn_of_eq now hc]
    rcases calls_input_of_eq_cases hc now with hcalls | ⟨label, hcalls⟩
    · rw [hcalls, List.append_nil]
      exact h
    · rw [hcalls]
      exact h.interim (.update label) rfl
  · rw [calls_input_of_ne hc, turn, if_neg hc, ← List.append_assoc]
    exact h.create u.name _

theorem spinnersInOrder_result {t : Tracking} {cs : List Call}
    (h : SpinnersInOrder cs t.spinner t.opened) (now : Nat) (id : ToolId) (e : Ending) :
    SpinnersInOrder (cs ++ t.calls (.result now id e)) (t.step (.result now id e)).spinner
      (t.step (.result now id e)).opened := by
  simp only [calls, concludeCalls, step, conclude]
  cases t.tools.find? id with
  | none => simpa using h
  | some i =>
    rw [← List.append_assoc]
    refine (h.final _ (Stage.finalAct_isFinal e _)).asides ?_ (Nat.le_refl _)
    split
    · simp [Call.spinner?]
    · simp

/-- Every cue keeps the spinners in order. -/
theorem spinnersInOrder_step {t : Tracking} {cs : List Call}
    (h : SpinnersInOrder cs t.spinner t.opened) (q : Cue) :
    SpinnersInOrder (cs ++ t.calls q) (t.step q).spinner (t.step q).opened := by
  cases q with
  | indicate console => exact h.asides (by simp [calls, Call.spinner?]) (Nat.le_succ _)
  | write kind text endLine => exact h.asides (by simp [calls, Call.spinner?]) (Nat.le_refl _)
  | throttle console delay =>
    rw [calls, ← List.append_assoc]
    exact (h.interim .stop rfl).asides (by simp [Call.spinner?]) (Nat.le_refl _)
  | halt => exact h.interim .stop rfl
  | announce name => exact h.interim (.info ("Starting " ++ name ++ "...")) rfl
  | input now u => exact spinnersInOrder_input h now u
  | result now id e => exact spinnersInOrder_result h now id e

/-- Cues that are followed to the letter keep the spinners in order. -/
theorem spinnersInOrder_play {t : Tracking} {cs : List Call}
    (h : SpinnersInOrder cs t.spinner t.opened) (cues : List Cue) :
    SpinnersInOrder (cs ++ t.trace cues) (t.play cues).spinner (t.play cues).opened := by
  induction cues generalizing t cs with
  | nil => simpa using h
  | cons q rest ih =>
    rw [trace_cons, ← List.append_assoc]
    exact ih (spinnersInOrder_step h q)

end Tracking

namespace Stage

variable {World : Type}

/-- The spinners of a stage live one after the other. -/
def SpinnersInOrder (s : Stage World) : Prop :=
  AgentConsole.SpinnersInOrder s.calls s.presenter.spinner s.opened

/-- Nothing changes for the spinners where no call is about one of them. -/
theorem SpinnersInOrder.asides {s s' : Stage World} {new : List Event} (h : s.SpinnersInOrder)
    (events : s'.events = s.events ++ new) (hnew : ∀ e ∈ new, e.call.spinner? = none)
    (spinner : s'.tracking.spinner = s.tracking.spinner)
    (opened : s.tracking.opened ≤ s'.tracking.opened) : s'.SpinnersInOrder := by
  have hcalls : s'.calls = s.calls ++ new.map (·.call) := by simp [calls, events]
  have hspinner : s'.presenter.spinner = s.presenter.spinner := spinner
  unfold SpinnersInOrder
  rw [hcalls, hspinner]
  refine AgentConsole.SpinnersInOrder.asides h ?_ opened
  intro c hc
  obtain ⟨e, he, rfl⟩ := List.mem_map.mp hc
  exact hnew e he

theorem Move.spinnersInOrder {d : Display World} {s s' : Stage World} (hmove : Move d s s')
    (h : s.SpinnersInOrder) : s'.SpinnersInOrder := by
  cases hmove with
  | follow cues follows spares =>
    have hplay := Tracking.spinnersInOrder_play (t := s.tracking) h cues
    rw [← spares.calls_eq follows, ← follows.tracking] at hplay
    exact hplay
  | stop n o held tracking events indicator =>
    exact h.asides events (by simp [Call.spinner?]) (by rw [tracking])
      (Nat.le_of_eq (by rw [tracking]))
  | update n o held tracking events indicator =>
    exact h.asides events (by simp [Call.spinner?]) (by rw [tracking])
      (Nat.le_of_eq (by rw [tracking]))
  | start console o started idle tracking events indicator =>
    refine h.asides events (by simp [Call.spinner?]) (by rw [tracking]; rfl) ?_
    rw [tracking]
    exact Nat.le_succ _

/-- In every run of a new presenter the spinners live one after the other, and the presenter holds
the one that is left unfinished: it holds one if and only if a spinner has been created and the
latest one has no last line.  The name with which a spinner starts is that of a tool with input. -/
theorem spinnerTrace_run (d : Display World) (deliveries : List Delivery) (notifies : Bool)
    (opened : Nat) (w : World) :
    let s := Stage.run d deliveries (.enter (.new notifies) opened w)
    SpinnerTrace s.calls s.presenter.spinner ∧
      (s.presenter.spinner.isSome ↔ ∃ n, Unfinished n s.calls) ∧
      ∀ n label, .spinner n (.start label) ∈ s.calls →
        ∃ x ∈ deliveries, ∃ u, x.callback.input? = some u ∧
          label = u.name ++ ": Preparing..." := by
  intro s
  have h : s.SpinnersInOrder :=
    (moves_run d deliveries (.enter (.new notifies) opened w)).keeps
      Move.spinnersInOrder (.nil opened)
  refine ⟨h.trace, ?_, fun n label hstart ↦ ?_⟩
  · rw [Option.isSome_iff_exists]
    exact exists_congr h.trace.held_iff
  · have hsteady := (follows_run d deliveries (.enter (.new notifies) opened w)).steadyCalls
    have hmem : .spinner n (.start label) ∈ s.steadyCalls := List.mem_filter.mpr ⟨hstart, rfl⟩
    rw [hsteady] at hmem
    obtain ⟨q, hq, t, hcall⟩ := Tracking.exists_of_mem_trace hmem
    obtain ⟨now, u, rfl, -, -, hlabel⟩ := Tracking.start_mem_calls hcall
    obtain ⟨x, hx, hcue⟩ := List.mem_flatMap.mp hq
    exact ⟨x, hx, u, (Callback.input_mem_cues_iff.mp hcue).2, hlabel⟩

example :
    (Stage.run .always [⟨0, .ofInput "A" "shell" "ls"⟩] (.enter (.new false) 0 ())).calls =
      [.openSpinner 1, .spinner 1 (.start "shell: Preparing..."),
        .spinner 1 (.update "shell: 2 chars")] := by
  rfl

end Stage

end AgentConsole
