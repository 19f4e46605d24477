import AgentConsole.Proofs.Presenter.Texts
import AgentConsole.Proofs.Presenter.View
import AgentConsole.Proofs.Terminal.Sharing
import AgentConsole.Proofs.Text.Lines
import AgentConsole.Terminal.Panel

/-!
# Color is only for show

Each place that writes something colored builds its text from pieces, some of them set off and some
not.  On a terminal without colors the same pieces are written as they are.  So what is written
there is what is written elsewhere without the sequences, if the texts that are shown have no escape
characters themselves (`Terminal.Uncolored`).

What is written never shows in how a call ends.  So presenters on a terminal without colors make the
same calls as elsewhere, and are in the same state after every callback (`Stage.uncolored_handle`).

* `Terminal.Uncolored.respond` : every call keeps the two terminals alike.
* `Session.Uncolored.step` : so does every step of a session.
* `Session.color_only_for_show` : whole sessions, and panels.
-/

namespace AgentConsole

open Paint (Shows)

/-! ## Terminals -/

namespace Terminal

/-- The slot of a terminal, with nothing else to tell the terminal from a new one. -/
def slotOnly (t : Terminal) : Terminal :=
  { new false false false with claimed := t.claimed, indicators := t.indicators }

/-- A display of which only the slot is seen. -/
def slotDisplay : Display Terminal :=
  ⟨fun c t ↦ ((t.respond c).1, (t.respond c).2.slotOnly)⟩

theorem respond_slotOnly_of_ne (t : Terminal) {c : Call} (hc : ∀ n act, c ≠ .indicator n act) :
    (t.respond c).2.slotOnly = t.slotOnly := by
  obtain ⟨hclaimed, hindicators⟩ := Answers.slot_eq (c := c) (t := t) .carriesOut hc
  rw [slotOnly, slotOnly, hclaimed, hindicators]

theorem startIndicator_slotOnly (n : Nat) (t : Terminal) :
    t.slotOnly.startIndicator n = ((t.startIndicator n).1, (t.startIndicator n).2.slotOnly) := by
  have hindicators : t.slotOnly.indicators = t.indicators := rfl
  have hclaimed : t.slotOnly.claimed = t.claimed := rfl
  unfold startIndicator
  rw [hindicators, hclaimed]
  by_cases hn : t.indicators.contains n = true
  · rw [if_pos hn, if_pos hn]
  · rw [if_neg hn, if_neg hn]
    by_cases hc : t.claimed = true
    · rw [if_pos hc, if_pos hc]
    · rw [if_neg hc, if_neg hc]
      rfl

theorem stopIndicator_slotOnly (n : Nat) (t : Terminal) :
    t.slotOnly.stopIndicator n = (t.stopIndicator n).slotOnly := by
  have hindicators : t.slotOnly.indicators = t.indicators := rfl
  unfold stopIndicator
  rw [hindicators]
  split
  · rfl
  · rfl

/-- How a call ends depends on the slot alone. -/
theorem display_seenThrough_slotOnly : display.SeenThrough slotOnly slotDisplay := by
  intro c t
  cases c with
  | indicator n act =>
    cases act with
    | start label =>
      change ((t.slotOnly.startIndicator n).1, (t.slotOnly.startIndicator n).2.slotOnly) = _
      rw [startIndicator_slotOnly]
      rfl
    | update label => rfl
    | stop =>
      change (Outcome.ok, (t.slotOnly.stopIndicator n).slotOnly) = _
      rw [stopIndicator_slotOnly]
      rfl
  | _ =>
    refine Prod.ext rfl ((respond_slotOnly_of_ne _ (by nofun)).trans ?_)
    exact (respond_slotOnly_of_ne t (by nofun)).symm

/-- A terminal without colors, on which the same has happened as on another one. -/
structure Uncolored (lit plain : Terminal) : Prop where
  color : plain.color = false
  ansi : plain.ansi = false
  hidden : lit.hidden = plain.hidden
  claimed : lit.claimed = plain.claimed
  indicators : lit.indicators = plain.indicators
  spinners : lit.spinners = plain.spinners
  stdout : Shows lit.stdout plain.stdout
  stderr : Shows lit.stderr plain.stderr

theorem uncolored_new (color ansi hidden : Bool) :
    (new color ansi hidden).Uncolored (new false false hidden) :=
  ⟨rfl, rfl, rfl, rfl, rfl, rfl, Paint.shows_nil, Paint.shows_nil⟩

namespace Uncolored

variable {lit plain : Terminal}

/-! ### What is written -/

theorem paint (h : lit.Uncolored plain) (p : Paint) {text : String} (htext : Paint.Bare text) :
    Shows (lit.paint p text) (plain.paint p text) := by
  rw [Terminal.paint, Terminal.paint, h.color]
  exact Paint.shows_apply htext _ p

theorem successLine (h : lit.Uncolored plain) {label : String} (hlabel : Paint.Bare label) :
    Shows (lit.successLine label) (plain.successLine label) :=
  ((h.paint .green (by decide)).append (Paint.shows_self (by decide))).append
    (Paint.shows_self hlabel)

theorem failureLine (h : lit.Uncolored plain) {label : String} (hlabel : Paint.Bare label) :
    Shows (lit.failureLine label) (plain.failureLine label) :=
  ((h.paint .red (by decide)).append (Paint.shows_self (by decide))).append (h.paint .red hlabel)

theorem infoLine (h : lit.Uncolored plain) {label : String} (hlabel : Paint.Bare label) :
    Shows (lit.infoLine label) (plain.infoLine label) :=
  ((h.paint .blue (by decide)).append (Paint.shows_self (by decide))).append
    (Paint.shows_self hlabel)

theorem throttleLine (h : lit.Uncolored plain) (delay : Float) :
    Shows (lit.throttleLine delay) (plain.throttleLine delay) := by
  have hblank : Shows " " " " := Paint.shows_self (by decide)
  exact ((((h.paint .red (by decide)).append hblank).append
    (h.paint .boldRed (bare_writeFloat delay))).append hblank).append (h.paint .red (by decide))

theorem streamText (h : lit.Uncolored plain) (kind : StreamKind) {text : String}
    (htext : Paint.Bare text) :
    Shows (lit.streamText kind text) (plain.streamText kind text) := by
  cases kind with
  | reasoning => exact h.paint .dim htext
  | output => exact Paint.shows_self htext

theorem notificationLine (h : lit.Uncolored plain) {title message : String}
    (htitle : Paint.Bare title) (hmessage : Paint.Bare message) :
    Shows (lit.notificationLine title message) (plain.notificationLine title message) := by
  have hline : Paint.Bare ("Notification: " ++ title ++ " - " ++ message) := by
    simp only [Paint.bare_append]
    exact ⟨⟨⟨by decide, htitle⟩, by decide⟩, hmessage⟩
  rw [Terminal.notificationLine, Terminal.notificationLine, h.ansi]
  exact Paint.shows_apply hline _ .cyan

theorem write (h : lit.Uncolored plain) (console : Console) {text text' : String}
    (htext : Shows text text') :
    (lit.write console text).Uncolored (plain.write console text') := by
  cases console with
  | stdout => exact { h with stdout := h.stdout.append htext }
  | stderr => exact { h with stderr := h.stderr.append htext }

/-! ### Calls -/

theorem withSpinners (h : lit.Uncolored plain) {l l' : List Nat} (hl : l = l') :
    Uncolored { lit with spinners := l } { plain with spinners := l' } :=
  { h with spinners := hl }

theorem withSlot (h : lit.Uncolored plain) (claimed : Bool) (indicators : List Nat) :
    Uncolored { lit with claimed := claimed, indicators := indicators }
      { plain with claimed := claimed, indicators := indicators } :=
  { h with claimed := rfl, indicators := rfl }

theorem startIndicator (h : lit.Uncolored plain) (n : Nat) :
    (lit.startIndicator n).2.Uncolored (plain.startIndicator n).2 := by
  unfold Terminal.startIndicator
  rw [h.indicators, h.claimed]
  split
  · exact h
  · split
    · exact h
    · exact h.withSlot true _

theorem stopIndicator (h : lit.Uncolored plain) (n : Nat) :
    (lit.stopIndicator n).Uncolored (plain.stopIndicator n) := by
  unfold Terminal.stopIndicator
  rw [h.indicators]
  split
  · exact h.withSlot false _
  · exact h

theorem startSpinner (h : lit.Uncolored plain) (n : Nat) :
    (lit.startSpinner n).Uncolored (plain.startSpinner n) := by
  unfold Terminal.startSpinner
  dsimp only
  rw [h.spinners, h.hidden]
  split
  · exact h
  · split
    · exact h.withSpinners (congrArg (n :: ·) h.spinners)
    · have hline : Shows "\n" "\n" := Paint.shows_self (by decide)
      exact (h.write .stdout hline).withSpinners (congrArg (n :: ·) h.spinners)

theorem stopSpinner (h : lit.Uncolored plain) (n : Nat) :
    (lit.stopSpinner n).Uncolored (plain.stopSpinner n) := by
  exact h.withSpinners (congrArg (List.filter (· ≠ n)) h.spinners)

theorem finishSpinner (h : lit.Uncolored plain) (n : Nat) {line line' : String}
    (hline : Shows line line') :
    (lit.finishSpinner n line).Uncolored (plain.finishSpinner n line') := by
  unfold Terminal.finishSpinner
  dsimp only
  rw [(h.stopSpinner n).hidden]
  split
  · exact h.stopSpinner n
  · exact (h.stopSpinner n).write .stdout (hline.append (Paint.shows_self (by decide)))

theorem respond (h : lit.Uncolored plain) {c : Call} (hc : c.Bare) :
    (lit.respond c).2.Uncolored (plain.respond c).2 := by
  have hend : Shows "\n" "\n" := Paint.shows_self (by decide)
  cases c with
  | openIndicator n console | openSpinner n => exact h
  | indicator n act =>
    cases act with
    | start label => exact h.startIndicator n
    | update label => exact h
    | stop => exact h.stopIndicator n
  | spinner n act =>
    cases act with
    | start label => exact h.startSpinner n
    | update label => exact h
    | succeed label => exact h.finishSpinner n (h.successLine hc)
    | fail label => exact h.finishSpinner n (h.failureLine hc)
    | info label => exact h.finishSpinner n (h.infoLine hc)
    | stop => exact h.stopSpinner n
  | stream kind text endLine =>
    refine h.write .stdout ((h.streamText kind hc).append ?_)
    cases endLine with
    | true => exact hend
    | false => exact Paint.shows_self (by decide)
  | throttle console delay => exact h.write console ((h.throttleLine delay).append hend)
  | notify title message => exact h.write .stdout ((h.notificationLine hc.1 hc.2).append hend)

/-- The same calls keep two terminals alike. -/
theorem leads {es : List Event} {lit' plain' : Terminal} (h : lit.Uncolored plain)
    (hes : ∀ e ∈ es, e.call.Bare) (hlit : display.Leads lit es lit')
    (hplain : display.Leads plain es plain') :
    lit'.Uncolored plain' := by
  induction es generalizing lit plain with
  | nil =>
    rw [Display.leads_nil_iff.mp hlit, Display.leads_nil_iff.mp hplain]
    exact h
  | cons e es ih =>
    obtain ⟨he, hrest⟩ := List.forall_mem_cons.mp hes
    exact ih (h.respond he) hrest hlit.2 hplain.2

/-- The slot is the same. -/
theorem slotOnly_eq (h : lit.Uncolored plain) : lit.slotOnly = plain.slotOnly := by
  rw [slotOnly, slotOnly, h.claimed, h.indicators]

/-- Calls end in the same way, whatever texts they have. -/
theorem respond_fst (h : lit.Uncolored plain) (c : Call) :
    (lit.respond c).1 = (plain.respond c).1 := by
  have hlit := display_seenThrough_slotOnly c lit
  rw [h.slotOnly_eq, display_seenThrough_slotOnly c plain] at hlit
  exact (congrArg Prod.fst hlit).symm

end Uncolored

end Terminal

/-! ## Presenters -/

namespace Stage

/-- The stage of a presenter on a terminal without colors that has done the same as another one. -/
structure Uncolored (lit plain : Stage Terminal) : Prop where
  world : lit.world.Uncolored plain.world
  presenter : lit.presenter = plain.presenter
  opened : lit.opened = plain.opened
  events : lit.events = plain.events
  remarks : lit.remarks = plain.remarks

/-- A presenter does the same on a terminal without colors. -/
theorem uncolored_handle {lit plain : Terminal} (h : lit.Uncolored plain) {p : Presenter}
    (hp : p.tools.Bare) {c : Callback} (hc : c.Bare) (opened now : Nat) :
    ((enter p opened lit).handle Terminal.display now c).Uncolored
      ((enter p opened plain).handle Terminal.display now c) := by
  -- Which calls are made is settled first, by what both terminals have in common; what they write
  -- comes after.
  have henter :
      (enter p opened lit).view Terminal.slotOnly = (enter p opened plain).view
        Terminal.slotOnly := by
    rw [view, view, enter, enter, h.slotOnly_eq]
  have hview :=
    view_handle_eq Terminal.display_seenThrough_slotOnly Terminal.display_seenThrough_slotOnly now c
    henter
  have hbare : ∀ e ∈ ((enter p opened lit).handle Terminal.display now c).events, e.call.Bare :=
    bare_of_handle (s := enter p opened lit) (List.nil_append _).symm hp hc
  have hlit := (moves_handle Terminal.display (enter p opened lit) now c).answered.leads
    (List.nil_append _).symm
  have hplain := (moves_handle Terminal.display (enter p opened plain) now c).answered.leads
    (List.nil_append _).symm
  generalize (enter p opened lit).handle Terminal.display now c = a at *
  generalize (enter p opened plain).handle Terminal.display now c = b at *
  simp only [view, mk.injEq] at hview
  obtain ⟨hpresenter, hopened, -, hevents, hremarks⟩ := hview
  exact ⟨h.leads hbare hlit (hevents ▸ hplain), hpresenter, hopened, hevents, hremarks⟩

end Stage

/-! ## Sessions -/

/-- The texts of a step that may be shown have no escape characters. -/
def SessionStep.Bare : SessionStep → Prop
  | .deliver _ c => c.Bare
  | .spinner _ act => act.Bare
  | .stream _ text _ => Paint.Bare text
  | .notify title message => Paint.Bare title ∧ Paint.Bare message
  | .idle | .openIndicator _ _ | .openSpinner _ | .indicator _ _ | .dropIndicator _ | .dropSpinner _
  | .throttle _ _ => True

namespace Session

/-- What steps result in, one after the other. -/
def results : List (Option Nat × SessionStep) → Session → List StepResult
  | [], _ => []
  | x :: rest, s => (s.stepAt x.1 x.2).1 :: results rest (s.stepAt x.1 x.2).2

/-- A session on a terminal without colors, in which the same has happened as in another one. -/
structure Uncolored (lit plain : Session) : Prop where
  terminal : lit.terminal.Uncolored plain.terminal
  opened : lit.opened = plain.opened
  clock : lit.clock = plain.clock
  presenters : lit.presenters = plain.presenters
  indicators : lit.indicators = plain.indicators
  spinners : lit.spinners = plain.spinners
  /-- The names that are kept have no escape characters. -/
  names : ∀ p ∈ lit.presenters, p.tools.Bare

theorem uncolored_shared (color ansi hidden : Bool) (notifies : List Bool) :
    (shared (.new color ansi hidden) notifies).Uncolored
    (shared (.new false false hidden) notifies) where
  terminal := Terminal.uncolored_new color ansi hidden
  opened := rfl
  clock := rfl
  presenters := rfl
  indicators := rfl
  spinners := rfl
  names := by
    intro p hp id i hi
    obtain ⟨notifies, -, rfl⟩ := List.mem_map.mp hp
    cases hi

namespace Uncolored

variable {lit plain : Session}

theorem call (h : lit.Uncolored plain) {c : Call} (hc : c.Bare) :
    (lit.call c).1 = (plain.call c).1 ∧ (lit.call c).2.Uncolored (plain.call c).2 :=
  ⟨congrArg StepResult.outcome (h.terminal.respond_fst c),
    { h with terminal := h.terminal.respond hc }⟩

theorem deliver (h : lit.Uncolored plain) (k : Nat) {c : Callback} (hc : c.Bare) :
    (lit.deliver k c).1 = (plain.deliver k c).1 ∧
    (lit.deliver k c).2.Uncolored (plain.deliver k c).2 := by
  unfold Session.deliver
  rw [← h.presenters, ← h.clock, ← h.opened]
  split
  · exact ⟨rfl, h⟩
  · rename_i p hp
    have hmem : p ∈ lit.presenters := List.mem_of_getElem? hp
    have hstage := Stage.uncolored_handle h.terminal (h.names p hmem) hc lit.opened lit.clock
    have hnames :=
      Stage.bare_handle Terminal.display (s := .enter p lit.opened lit.terminal) (h.names p hmem) hc
      lit.clock
    refine ⟨congrArg₂ StepResult.handled hstage.presenter hstage.remarks, hstage.world,
      hstage.opened, rfl, congrArg (lit.presenters.set k) hstage.presenter, h.indicators,
      h.spinners, fun q hq ↦ ?_⟩
    rcases List.mem_or_eq_of_mem_set hq with hq | rfl
    · exact h.names q hq
    · exact hnames

theorem dropIndicator (h : lit.Uncolored plain) (slot : Nat) :
    (lit.dropIndicator slot).Uncolored (plain.dropIndicator slot) := by
  unfold Session.dropIndicator
  rw [← h.indicators]
  split
  · exact h
  · exact { h with terminal := h.terminal.stopIndicator _, indicators := rfl }

theorem dropSpinner (h : lit.Uncolored plain) (slot : Nat) :
    (lit.dropSpinner slot).Uncolored (plain.dropSpinner slot) := by
  unfold Session.dropSpinner
  rw [← h.spinners]
  split
  · exact h
  · exact { h with terminal := h.terminal.stopSpinner _, spinners := rfl }

theorem step (h : lit.Uncolored plain) {x : SessionStep} (hx : x.Bare) :
    (lit.step x).1 = (plain.step x).1 ∧ (lit.step x).2.Uncolored (plain.step x).2 := by
  cases x with
  | idle => exact ⟨rfl, h⟩
  | deliver k c => exact h.deliver k hx
  | openIndicator slot console =>
    have hdrop := h.dropIndicator slot
    refine ⟨rfl, { hdrop with opened := congrArg (· + 1) h.opened, indicators := ?_ }⟩
    exact congrArg₂ (fun n slots ↦ (slot, n + 1) :: slots) h.opened hdrop.indicators
  | openSpinner slot =>
    have hdrop := h.dropSpinner slot
    refine ⟨rfl, { hdrop with opened := congrArg (· + 1) h.opened, spinners := ?_ }⟩
    exact congrArg₂ (fun n slots ↦ (slot, n + 1) :: slots) h.opened hdrop.spinners
  | indicator slot act =>
    unfold Session.step
    rw [← h.indicators]
    dsimp only
    split
    · exact ⟨rfl, h⟩
    · exact h.call trivial
  | spinner slot act =>
    unfold Session.step
    rw [← h.spinners]
    dsimp only
    split
    · exact ⟨rfl, h⟩
    · exact h.call hx
  | dropIndicator slot =>
    refine ⟨?_, h.dropIndicator slot⟩
    unfold Session.step
    rw [h.indicators]
  | dropSpinner slot =>
    refine ⟨?_, h.dropSpinner slot⟩
    unfold Session.step
    rw [h.spinners]
  | stream kind text endLine => exact h.call hx
  | throttle console delay => exact h.call trivial
  | notify title message => exact h.call hx

theorem run (h : lit.Uncolored plain) {steps : List (Option Nat × SessionStep)}
    (hsteps : ∀ x ∈ steps, x.2.Bare) :
    lit.results steps = plain.results steps ∧ (lit.run steps).Uncolored (plain.run steps) := by
  induction steps generalizing lit plain with
  | nil => exact ⟨rfl, h⟩
  | cons x rest ih =>
    obtain ⟨hx, hrest⟩ := List.forall_mem_cons.mp hsteps
    have hclock :
        Uncolored { lit with clock := x.1.getD lit.clock }
          { plain with clock := x.1.getD plain.clock } :=
      { h with clock := congrArg x.1.getD h.clock }
    obtain ⟨hresult, hstep⟩ := hclock.step hx
    obtain ⟨hresults, hrun⟩ := ih hstep hrest
    exact ⟨congrArg₂ List.cons hresult hresults, hrun⟩

end Uncolored

end Session

/-! ## Panels -/

namespace Panel

/-- The texts of a panel have no escape characters. -/
structure Bare (p : Panel) : Prop where
  title : ∀ label ∈ p.title, Paint.Bare label
  subtitle : ∀ label ∈ p.subtitle, Paint.Bare label
  body : Paint.Bare p.body

theorem bare_rule (n : Nat) : Paint.Bare (rule n) := by
  rw [Paint.Bare, rule, String.toList_ofList, List.mem_replicate, not_and]
  exact fun _ ↦ by decide

theorem bare_border {left right : String} (hleft : Paint.Bare left) (hright : Paint.Bare right)
    {label : Option String} (hlabel : ∀ l ∈ label, Paint.Bare l) (width : Nat) :
    Paint.Bare (border left right label width) := by
  have hblank : Paint.Bare " " := by decide
  cases label with
  | none => simp [border, hleft, hright, bare_rule]
  | some label => simp [border, hleft, hright, bare_rule, hblank, hlabel label rfl]

theorem shows_row {line : String} (h : Paint.Bare line) (on : Bool) (width : Nat) :
    Shows (row on width line) (row false width line) := by
  have hside : Shows (Paint.apply on .blue "│") (Paint.apply false .blue "│") :=
    Paint.shows_apply (by decide) on .blue
  have hblank : Shows " " " " := Paint.shows_self (by decide)
  have hfill : Paint.Bare (String.ofList (List.replicate (width - 2 - Text.size line) ' ')) := by
    rw [Paint.Bare, String.toList_ofList, List.mem_replicate, not_and]
    exact fun _ ↦ by decide
  exact ((((hside.append hblank).append (Paint.shows_self h)).append
    (Paint.shows_self hfill)).append hblank).append hside

/-- The frame alone is colored. -/
theorem shows_render {p : Panel} (h : p.Bare) (on : Bool) :
    Shows (p.render on) (p.render false) := by
  have htop : Paint.Bare (border "╭" "╮" p.title p.width) :=
    bare_border (by decide) (by decide) h.title _
  have hbottom : Paint.Bare (border "╰" "╯" p.subtitle p.width) :=
    bare_border (by decide) (by decide) h.subtitle _
  refine Paint.shows_intercalate (by decide)
    (.cons (Paint.shows_apply htop on .blue) (List.rel_append ?_ ?_))
  · rw [List.forall₂_map_left_iff, List.forall₂_map_right_iff, List.forall₂_same]
    exact fun line hline ↦
      shows_row (fun hesc ↦ h.body (Text.mem_of_mem_lines hline hesc)) on p.width
  · exact .cons (Paint.shows_apply hbottom on .blue) .nil

end Panel

/-- Colors are only for show.  Let presenters, with notifications or without, and displays that are
driven by hand take the same steps at the same times on two terminals, where one of them has no
colors.  If no text that may be shown has an escape character, all steps end in the same way, with
the same presenters and remarks, and what is written on the terminal without colors is what is
written on the other one without the sequences that set them.  The same holds for panels. -/
theorem Session.color_only_for_show (color ansi hidden : Bool) (notifies : List Bool)
    {steps : List (Option Nat × SessionStep)} (h : ∀ x ∈ steps, x.2.Bare) :
    let lit := shared (.new color ansi hidden) notifies
    let plain := shared (.new false false hidden) notifies
    lit.results steps = plain.results steps ∧
      Paint.strip (lit.run steps).terminal.stdout = (plain.run steps).terminal.stdout ∧
      Paint.strip (lit.run steps).terminal.stderr = (plain.run steps).terminal.stderr ∧
      ∀ p : Panel, p.Bare → Paint.strip (p.render true) = p.render false := by
  intro lit plain
  obtain ⟨hresults, hrun⟩ := (uncolored_shared color ansi hidden notifies).run h
  exact ⟨hresults, hrun.terminal.stdout.strip_eq, hrun.terminal.stderr.strip_eq,
    fun p hp ↦ (Panel.shows_render hp true).strip_eq⟩

/-- A presenter with notifications, a spinner that is driven by hand, and a panel.  The label of the
spinner looks like what is left of a sequence when its escape character is gone. -/
theorem Session.color_only_for_show_of_failed_spinner :
    let steps : List (Option Nat × SessionStep) :=
      [(some 5, .deliver 0 { Callback.ofInput "1" "search" "q" with
          reasoningText := some "Hm", data := some "Hi" }),
        (none, .openSpinner 1), (none, .spinner 1 (.fail "[31m"))]
    let lit := (shared (.new true true false) [true]).run steps
    let plain := (shared (.new false false false) [true]).run steps
    (∀ x ∈ steps, x.2.Bare) ∧
      lit.terminal.stdout = "\x1b[2mHm\x1b[0mHi\n\x1b[31m✖\x1b[0m \x1b[31m[31m\x1b[0m\n" ∧
      plain.terminal.stdout = "HmHi\n✖ [31m\n" ∧
      Paint.strip lit.terminal.stdout = plain.terminal.stdout ∧
      Panel.goodbye.Bare ∧
        Paint.strip (Panel.goodbye.render true) = Panel.goodbye.render false := by
  intro steps lit plain
  have hdeliver : Callback.Bare { Callback.ofInput "1" "search" "q" with
      reasoningText := some "Hm", data := some "Hi" } := by
    refine ⟨?_, ?_, ?_, nofun⟩
    · rintro text ⟨⟩
      decide
    · rintro text ⟨⟩
      decide
    · rintro u ⟨⟩ name ⟨⟩
      decide
  have hfail : SpinnerAct.Bare (.fail "[31m") := show Paint.Bare "[31m" by decide
  have hsteps : ∀ x ∈ steps, x.2.Bare := by
    simp only [steps, List.forall_mem_cons]
    exact ⟨hdeliver, trivial, hfail, List.forall_mem_nil _⟩
  have hgoodbye : Panel.goodbye.Bare := ⟨nofun, nofun, by decide⟩
  obtain ⟨-, hstdout, -, hpanel⟩ := color_only_for_show true true false [true] hsteps
  exact ⟨hsteps, rfl, rfl, hstdout, hgoodbye, hpanel _ hgoodbye⟩

end AgentConsole
