import AgentConsole.Proofs.Presenter.Likeness
import AgentConsole.Proofs.Terminal.Attendance

/-!
# What a presenter leaves on a terminal

A call writes or writes nothing, and what it writes does not show in how it ends.  A spinner writes
when it starts, but only if it does not run already, and it leaves its last line whether it runs or
not.  So what is written hangs on what runs, and it takes a presenter that is the only one at its
terminal to make sure that every start is that of a spinner that does not run.  Then each call has a
text of its own (`Call.stdoutText`, `Call.stderrText`), and what a run writes is the texts of its
calls in their order.

Which calls have a text does not hang on outcomes, so these may as well be the calls of the same run
on a display on which every call succeeds (`Stage.transcript_run`).
-/

namespace AgentConsole

/-! ## The texts of calls -/

/-- The notice of a throttled loop, without colors. -/
def throttleText (delay : Float) : String :=
  "Throttled! Waiting " ++ writeFloat .plain delay ++ " seconds before retrying...\n"

namespace Call

/-- What a call writes to the standard output, without colors. -/
def stdoutText : Call → String
  | .stream _ text endLine => text ++ if endLine then "\n" else ""
  | .spinner _ (.start _) => "\n"
  | .spinner _ (.succeed label) => "✔ " ++ label ++ "\n"
  | .spinner _ (.fail label) => "✖ " ++ label ++ "\n"
  | .spinner _ (.info label) => "ℹ 🔧 " ++ label ++ "\n"
  | .throttle .stdout delay => throttleText delay
  | _ => ""

/-- What a call writes to the standard error, without colors. -/
def stderrText : Call → String
  | .throttle .stderr delay => throttleText delay
  | _ => ""

/-- Whether a call starts a spinner. -/
def startsSpinner : Call → Bool
  | .spinner _ (.start _) => true
  | _ => false

theorem startsSpinner_iff {c : Call} :
    c.startsSpinner = true ↔ ∃ m label, c = .spinner m (.start label) := by
  constructor
  · intro h
    unfold startsSpinner at h
    split at h
    · exact ⟨_, _, rfl⟩
    · cases h
  · rintro ⟨m, label, rfl⟩
    rfl

/-- Only a call that is made in any case has a text. -/
theorem texts_eq_empty {c : Call} (h : c.isSteady = false) :
    c.stdoutText = "" ∧ c.stderrText = "" := by
  cases c with
  | indicator n act => exact ⟨rfl, rfl⟩
  | _ => cases h

end Call

/-- The texts of the calls made in any case are the texts of all calls. -/
theorem join_texts_filter (cs : List Call) :
    String.join ((cs.filter Call.isSteady).map Call.stdoutText) =
      String.join (cs.map Call.stdoutText) ∧
      String.join ((cs.filter Call.isSteady).map Call.stderrText) =
        String.join (cs.map Call.stderrText) := by
  induction cs with
  | nil => exact ⟨rfl, rfl⟩
  | cons c cs ih =>
    cases hc : c.isSteady with
    | true => simp [List.filter_cons_of_pos hc, String.join_cons, ih.1, ih.2]
    | false =>
      obtain ⟨hout, herr⟩ := Call.texts_eq_empty hc
      simp [List.filter_cons_of_neg (by simp [hc] : ¬ c.isSteady = true),
        String.join_cons, ih.1, ih.2, hout, herr]

namespace Terminal

/-- Nothing is colored, and displays are visible. -/
structure Plain (t : Terminal) : Prop where
  colorless : t.color = false
  visible : t.hidden = false

namespace Plain

variable {t : Terminal}

theorem write (h : t.Plain) (console : Console) (text : String) : (t.write console text).Plain := by
  cases console with
  | stdout => exact ⟨h.colorless, h.visible⟩
  | stderr => exact ⟨h.colorless, h.visible⟩

theorem paint (h : t.Plain) (p : Paint) (text : String) : t.paint p text = text := by
  rw [Terminal.paint, h.colorless, Bool.false_and, Paint.apply_off]

theorem throttleLine_eq (h : t.Plain) (delay : Float) :
    t.throttleLine delay ++ "\n" = throttleText delay := by
  have hfront : "Throttled! Waiting" ++ " " = "Throttled! Waiting " := by decide
  have hback : " " ++ ("seconds before retrying..." ++ "\n") = " seconds before retrying...\n" := by
    decide
  unfold throttleLine throttleText
  rw [h.paint, h.paint, h.paint, hfront, String.append_assoc, String.append_assoc,
    String.append_assoc, hback, ← String.append_assoc]

theorem stopSpinner (h : t.Plain) (n : Nat) : (t.stopSpinner n).Plain :=
  ⟨h.colorless, h.visible⟩

/-- On a plain terminal a spinner leaves its last line. -/
theorem finishSpinner_eq (h : t.Plain) (n : Nat) (line : String) :
    t.finishSpinner n line = (t.stopSpinner n).write .stdout (line ++ "\n") := by
  rw [finishSpinner]
  exact if_neg (by simp [(h.stopSpinner n).visible])

/-- A spinner that does not run starts on a line of its own. -/
theorem startSpinner_eq (h : t.Plain) {n : Nat} (hn : n ∉ t.spinners) :
    t.startSpinner n = { t.write .stdout "\n" with spinners := n :: t.spinners } := by
  simp [Terminal.startSpinner, hn, h.visible, Terminal.write]

theorem startSpinner (h : t.Plain) (n : Nat) : (t.startSpinner n).Plain := by
  by_cases hn : n ∈ t.spinners
  · simpa [Terminal.startSpinner, hn] using h
  · rw [h.startSpinner_eq hn]
    exact ⟨h.colorless, h.visible⟩

theorem finishSpinner (h : t.Plain) (n : Nat) (line : String) : (t.finishSpinner n line).Plain := by
  rw [h.finishSpinner_eq]
  exact (h.stopSpinner n).write _ _

/-- No call makes a terminal colored, or its displays invisible. -/
theorem respond (h : t.Plain) (c : Call) : (t.respond c).2.Plain := by
  cases c with
  | indicator n act =>
    cases act with
    | start label =>
      rw [Terminal.respond, actIndicator, startIndicator]
      split
      · exact h
      · split
        · exact h
        · exact ⟨h.colorless, h.visible⟩
    | update label => exact h
    | stop =>
      rw [Terminal.respond, actIndicator, stopIndicator]
      split
      · exact ⟨h.colorless, h.visible⟩
      · exact h
  | spinner n act =>
    cases act with
    | start label => exact h.startSpinner n
    | update label => exact h
    | stop => exact h.stopSpinner n
    | succeed label | fail label | info label => exact h.finishSpinner n _
  | openIndicator n console | openSpinner n => exact h
  | stream kind text endLine | notify title message => exact h.write .stdout _
  | throttle console delay => exact h.write console _

theorem after (h : t.Plain) (cs : List Call) : (display.after cs t).Plain := by
  induction cs generalizing t with
  | nil => exact h
  | cons c cs ih => exact ih (h.respond c)

end Plain

/-! ## What calls write -/

/-- Calls write their texts, in their order, and nothing else. -/
structure Transcribes (cs : List Call) (t : Terminal) : Prop where
  stdout : (display.after cs t).stdout = t.stdout ++ String.join (cs.map Call.stdoutText)
  stderr : (display.after cs t).stderr = t.stderr ++ String.join (cs.map Call.stderrText)

namespace Transcribes

variable {t : Terminal} {cs cs' : List Call}

theorem nil (t : Terminal) : Transcribes [] t := by
  constructor
  · simp
  · simp

theorem append (h : Transcribes cs t) (h' : Transcribes cs' (display.after cs t)) :
    Transcribes (cs ++ cs') t where
  stdout := by
    rw [Display.after_append, h'.stdout, h.stdout, List.map_append, String.join_append,
      String.append_assoc]
  stderr := by
    rw [Display.after_append, h'.stderr, h.stderr, List.map_append, String.join_append,
      String.append_assoc]

/-- A single call. -/
theorem single {c : Call} (hout : (t.respond c).2.stdout = t.stdout ++ c.stdoutText)
    (herr : (t.respond c).2.stderr = t.stderr ++ c.stderrText) : Transcribes [c] t where
  stdout := by
    change (t.respond c).2.stdout = _
    rw [hout, List.map_singleton, String.join_cons, String.join_nil, String.append_empty]
  stderr := by
    change (t.respond c).2.stderr = _
    rw [herr, List.map_singleton, String.join_cons, String.join_nil, String.append_empty]

/-- A call that writes nothing. -/
theorem silent {c : Call}
    (h : (t.respond c).2.stdout = t.stdout ∧ (t.respond c).2.stderr = t.stderr)
    (hc : c.stdoutText = "" ∧ c.stderrText = "") : Transcribes [c] t :=
  single (by rw [h.1, hc.1, String.append_empty]) (by rw [h.2, hc.2, String.append_empty])

/-- A call that does no more to the texts than to write to the standard output. -/
theorem toStdout {c : Call} {text : String} (h : (t.respond c).2.stdout = t.stdout ++ text)
    (herr : (t.respond c).2.stderr = t.stderr) (hc : c.stdoutText = text ∧ c.stderrText = "") :
    Transcribes [c] t :=
  single (by rw [h, hc.1]) (by rw [herr, hc.2, String.append_empty])

/-- The start of a spinner that does not run. -/
theorem start (h : t.Plain) {n : Nat} (hn : n ∉ t.spinners) (label : String) :
    Transcribes [.spinner n (.start label)] t := by
  have heq : (t.respond (.spinner n (.start label))).2 =
      { t.write .stdout "\n" with spinners := n :: t.spinners } := h.startSpinner_eq hn
  exact toStdout (by rw [heq]; rfl) (by rw [heq]; rfl) ⟨rfl, rfl⟩

/-- The last line of a spinner. -/
theorem finish (h : t.Plain) (n : Nat) {act : SpinnerAct} {line : String}
    (hact : t.actSpinner n act = t.finishSpinner n line)
    (hc : (Call.spinner n act).stdoutText = line ++ "\n") : Transcribes [.spinner n act] t := by
  have heq : (t.respond (.spinner n act)).2 = (t.stopSpinner n).write .stdout (line ++ "\n") :=
    hact.trans (h.finishSpinner_eq n line)
  exact toStdout (by rw [heq]; rfl) (by rw [heq]; rfl) ⟨hc, rfl⟩

theorem indicator (n : Nat) (act : IndicatorAct) : Transcribes [.indicator n act] t := by
  refine silent ?_ ⟨rfl, rfl⟩
  cases act with
  | start label =>
    rw [respond, actIndicator, startIndicator]
    split
    · exact ⟨rfl, rfl⟩
    · split
      · exact ⟨rfl, rfl⟩
      · exact ⟨rfl, rfl⟩
  | update label => exact ⟨rfl, rfl⟩
  | stop =>
    rw [respond, actIndicator, stopIndicator]
    split
    · exact ⟨rfl, rfl⟩
    · exact ⟨rfl, rfl⟩

theorem throttle (h : t.Plain) (console : Console) (delay : Float) :
    Transcribes [.throttle console delay] t := by
  have hline := h.throttleLine_eq delay
  cases console with
  | stdout =>
    refine single ?_ ?_
    · simp only [respond, write, hline, Call.stdoutText]
    · simp only [respond, write, Call.stderrText, String.append_empty]
  | stderr =>
    refine single ?_ ?_
    · simp only [respond, write, Call.stdoutText, String.append_empty]
    · simp only [respond, write, hline, Call.stderrText]

/-- Every call but the start of a spinner and a notification. -/
theorem of_startsSpinner_eq_false (h : t.Plain) {c : Call} (hstart : c.startsSpinner = false)
    (hnotify : c.isNotification = false) : Transcribes [c] t := by
  cases c with
  | notify title message => cases hnotify
  | openIndicator n console | openSpinner n => exact silent ⟨rfl, rfl⟩ ⟨rfl, rfl⟩
  | indicator n act => exact indicator n act
  | throttle console delay => exact throttle h console delay
  | stream kind text endLine =>
    refine toStdout ?_ rfl ⟨rfl, rfl⟩
    cases kind with
    | output => rfl
    | reasoning => rw [respond, streamText, h.paint]; rfl
  | spinner n act =>
    cases act with
    | start label => cases hstart
    | update label | stop => exact silent ⟨rfl, rfl⟩ ⟨rfl, rfl⟩
    | succeed label => exact finish h n rfl (by rw [successLine, h.paint]; rfl)
    | fail label => exact finish h n rfl (by rw [failureLine, h.paint, h.paint]; rfl)
    | info label => exact finish h n rfl (by rw [infoLine, h.paint]; rfl)

/-- Any number of such calls. -/
theorem of_forall (h : t.Plain)
    (hcs : ∀ c ∈ cs, c.startsSpinner = false ∧ c.isNotification = false) :
    Transcribes cs t := by
  induction cs generalizing t with
  | nil => exact nil t
  | cons c cs ih =>
    obtain ⟨hstart, hnotify⟩ := hcs c List.mem_cons_self
    have hrest := ih (h.respond c) fun c hc ↦ hcs c (List.mem_cons_of_mem _ hc)
    exact (of_startsSpinner_eq_false h hstart hnotify).append hrest

end Transcribes

end Terminal

/-! ## What cues write -/

namespace Tracking

variable {t : Tracking} {terminal : Terminal}

/-- The calls of another tool's input: the spinner that they start is a new one. -/
theorem transcribes_create (hplain : terminal.Plain) (hminded : t.Minded terminal)
    (label label' : String) :
    Terminal.Transcribes (t.spinnerCalls .stop ++ [.openSpinner (t.opened + 1),
      .spinner (t.opened + 1) (.start label),
        .spinner (t.opened + 1) (.update label')]) terminal := by
  have hhalt : Terminal.Transcribes (t.spinnerCalls .stop) terminal := by
    refine .of_forall hplain fun c hc ↦ ?_
    obtain ⟨n, -, rfl⟩ := mem_spinnerCalls_iff.mp hc
    exact ⟨rfl, rfl⟩
  have hplain' := hplain.after (t.spinnerCalls .stop)
  have hfresh :
      t.opened + 1 ∉ (Terminal.display.after (t.spinnerCalls .stop) terminal).spinners :=
    (hminded.step Terminal.display_showsOn .halt).fresh
  refine hhalt.append ?_
  have hopen : Terminal.Transcribes [.openSpinner (t.opened + 1)] _ :=
    .of_startsSpinner_eq_false hplain' rfl rfl
  have hupdate : Terminal.Transcribes [.spinner (t.opened + 1) (.update label')] _ :=
    .of_startsSpinner_eq_false (hplain'.after [.spinner (t.opened + 1) (.start label)]) rfl rfl
  exact hopen.append ((Terminal.Transcribes.start hplain' hfresh label).append hupdate)

/-- Each call of a cue writes its text, if no notifications are sent. -/
theorem transcribes_calls (hplain : terminal.Plain) (hminded : t.Minded terminal)
    (hquiet : t.notifies = false) (q : Cue) : Terminal.Transcribes (t.calls q) terminal := by
  by_cases hstart : ∃ m label, .spinner m (.start label) ∈ t.calls q
  · obtain ⟨m, label, hmem⟩ := hstart
    obtain ⟨now, u, rfl, hc, -, -⟩ := start_mem_calls hmem
    rw [calls_input_of_ne hc]
    exact transcribes_create hplain hminded _ _
  · refine .of_forall hplain fun c hc ↦ ⟨?_, ?_⟩
    · rw [Bool.eq_false_iff]
      intro hstarts
      obtain ⟨m, label, rfl⟩ := Call.startsSpinner_iff.mp hstarts
      exact hstart ⟨m, label, hc⟩
    · have hnone := notices_eq_nil_of_notifies hquiet q
      simpa using List.filter_eq_nil_iff.mp hnone c hc

theorem transcribes_trace (hplain : terminal.Plain) (hminded : t.Minded terminal)
    (hquiet : t.notifies = false) (cues : List Cue) :
    Terminal.Transcribes (t.trace cues) terminal := by
  induction cues generalizing t terminal with
  | nil => exact .nil terminal
  | cons q rest ih =>
    refine (transcribes_calls hplain hminded hquiet q).append ?_
    refine ih (hplain.after _) (hminded.step Terminal.display_showsOn q) ?_
    rw [step_notifies, hquiet]

end Tracking

/-! ## What a run writes -/

namespace Stage

/-- On a plain terminal there are the texts of all calls made so far. -/
structure Transcribed (s : Stage Terminal) : Prop where
  plain : s.world.Plain
  stdout : s.world.stdout = String.join (s.calls.map Call.stdoutText)
  stderr : s.world.stderr = String.join (s.calls.map Call.stderrText)

variable {s s' : Stage Terminal}

/-- Where new calls have written their texts. -/
theorem Transcribed.append (h : s.Transcribed) {new : List Event}
    (events : s'.events = s.events ++ new) (answered : Answered Terminal.display s s')
    (ht : Terminal.Transcribes (new.map (·.call)) s.world) : s'.Transcribed := by
  have hworld := (answered.leads events).eq_after
  refine ⟨?_, ?_, ?_⟩
  · rw [hworld]
    exact h.plain.after _
  · rw [hworld, ht.stdout, h.stdout, calls, calls, events, List.map_append, List.map_append,
      String.join_append]
  · rw [hworld, ht.stderr, h.stderr, calls, calls, events, List.map_append, List.map_append,
      String.join_append]

theorem Move.notifies {World : Type} {d : Display World} {s s' : Stage World}
    (hmove : Move d s s') :
    s'.tracking.notifies = s.tracking.notifies := by
  cases hmove with
  | follow cues follows spares => rw [follows.tracking, Tracking.play_notifies]
  | stop n o held tracking events indicator answered
  | update n o held tracking events indicator answered => rw [tracking]
  | start console o started idle tracking events indicator answered => rw [tracking]; rfl

/-- A presenter that is the only one at its terminal, and sends no notifications, leaves there the
texts of its calls. -/
theorem Move.transcribed (hmove : Move Terminal.display s s') (halone : s.Alone id)
    (hquiet : s.tracking.notifies = false) (h : s.Transcribed) : s'.Transcribed := by
  have hanswered := hmove.answered
  cases hmove with
  | follow cues follows spares =>
    obtain ⟨new, events, -⟩ := spares.events
    refine h.append events hanswered ?_
    rw [spares.new_calls_eq follows events]
    exact Tracking.transcribes_trace h.plain halone.minded hquiet cues
  | stop n o held tracking events indicator answered
  | update n o held tracking events indicator answered
  | start console o started idle tracking events indicator answered =>
    refine h.append events hanswered (.of_forall h.plain ?_)
    simp [Call.startsSpinner, Call.isNotification]

theorem transcribed_run (ansi : Bool) (deliveries : List Delivery) :
    (Stage.run Terminal.display deliveries
      (.enter (.new false) 0 (.new false ansi false))).Transcribed := by
  have hidle : (id (Terminal.new false ansi false)).Idle := Terminal.idle_new false ansi false
  have hnew : (Stage.enter (.new false) 0 (Terminal.new false ansi false)).Transcribed :=
    ⟨⟨rfl, rfl⟩, rfl, rfl⟩
  have hboth := (moves_run Terminal.display deliveries _).keeps (P := fun m ↦
    m.Alone id ∧ m.tracking.notifies = false ∧ m.Transcribed)
    (fun hmove ⟨halone, hquiet, hm⟩ ↦ ⟨hmove.alone Terminal.display_showsOn halone,
      hmove.notifies.trans hquiet, hmove.transcribed halone hquiet hm⟩)
    ⟨alone_enter hidle false 0, rfl, hnew⟩
  exact hboth.2.2

/-- On the display on which every call succeeds, all calls succeed. -/
theorem forall_ok_run_always (deliveries : List Delivery) (notifies : Bool) (opened : Nat) :
    ∀ e ∈ (Stage.run .always deliveries (.enter (.new notifies) opened ())).events,
      e.outcome = .ok := by
  have hanswered := Moves.answered (moves_run .always deliveries (.enter (.new notifies) opened ()))
  exact (hanswered.leads (List.nil_append _).symm).forall_outcome (Q := (· = .ok)) fun _ _ _ ↦
    rfl

/-- A presenter without notifications that is the only one at a fresh and visible terminal without
colors does there what it does on a display on which every call succeeds.  All its calls succeed, so
that no indicator is refused, it looks the same after the same callbacks, and what it leaves on the
terminal is, for the calls that it makes on that display and in their order, the text of each of
them. -/
theorem transcript_run (ansi : Bool) (deliveries : List Delivery) :
    let s := Stage.run Terminal.display deliveries (.enter (.new false) 0 (.new false ansi false))
    let a := Stage.run .always deliveries (.enter (.new false) 0 ())
    (∀ e ∈ s.events, e.outcome = .ok) ∧
      s.presenter.snapshot = a.presenter.snapshot ∧
      s.world.stdout = String.join (a.calls.map Call.stdoutText) ∧
      s.world.stderr = String.join (a.calls.map Call.stderrText) := by
  intro s a
  have hs : ∀ e ∈ s.events, e.outcome = .ok :=
    forall_ok_run (Terminal.idle_new false ansi false) deliveries false 0
  have ha : ∀ e ∈ a.events, e.outcome = .ok := forall_ok_run_always deliveries false 0
  have hlike : s.Resembles a := (resembles_new false 0 0 _ _).run ha
  have hlike' : a.Resembles s := (resembles_new false 0 0 _ _).run hs
  have hfollow := follows_run Terminal.display deliveries
    (.enter (.new false) 0 (.new false ansi false))
  have hfollow' := follows_run .always deliveries (.enter (.new false) 0 ())
  have hsteady : s.steadyCalls = a.steadyCalls :=
    hfollow.steadyCalls.trans hfollow'.steadyCalls.symm
  have hsame :
      String.join (s.calls.map Call.stdoutText) = String.join (a.calls.map Call.stdoutText) ∧
      String.join (s.calls.map Call.stderrText) = String.join (a.calls.map Call.stderrText) := by
    rw [← (join_texts_filter s.calls).1, ← (join_texts_filter s.calls).2,
      ← (join_texts_filter a.calls).1, ← (join_texts_filter a.calls).2]
    change String.join (s.steadyCalls.map _) = _ ∧ String.join (s.steadyCalls.map _) = _
    rw [hsteady]
    exact ⟨rfl, rfl⟩
  have htext : s.Transcribed := transcribed_run ansi deliveries
  exact ⟨hs, hlike.snapshot_eq hlike', htext.stdout.trans hsame.1, htext.stderr.trans hsame.2⟩

/-- A line of output, and the line of a spinner that starts. -/
example :
    let output : Delivery := ⟨0, { Callback.empty with data := some "Done.", complete := true }⟩
    let input : Delivery := ⟨1, .ofInput "A" "shell" "a"⟩
    let s := Stage.run Terminal.display [output, input]
      (.enter (.new false) 0 (.new false false false))
    s.world.stdout = "Done.\n\n" := by decide

end Stage

end AgentConsole
