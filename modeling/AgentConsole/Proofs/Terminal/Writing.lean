import AgentConsole.Proofs.Display.Answer
import AgentConsole.Terminal.Basic

/-!
# Terminals that may fail to write

A terminal as a `Display` writes whatever it is asked to.  A real one may break off, and then the
call fails.  `Terminal.Answers` says how a terminal may answer a call: either it carries the call
out, or it was to write something and broke off.  What runs on the terminal changes before anything
is written, or only after it, and so is known in both cases.

* `Display.ShowsOn` : a display whose answers are those of a terminal.  The terminal that always
  writes is one, and the one that never does is another.
* `Terminal.Answers.slot_eq`, `Terminal.Answers.mem_spinners` : what an answer may do to what is
  running.
-/

namespace AgentConsole

/-- Whether an act puts an end to the running of a spinner. -/
def SpinnerAct.halts : SpinnerAct → Bool
  | .succeed _ | .fail _ | .info _ | .stop => true
  | .start _ | .update _ => false

namespace Terminal

/-! ## Breaking off -/

/-- Whether a call writes something, and reports whether that has failed. -/
def writes (t : Terminal) : Call → Bool
  | .stream _ _ _ | .throttle _ _ => true
  | .spinner n (.start _) => !t.hidden && !t.spinners.contains n
  | .spinner _ (.succeed _) | .spinner _ (.fail _) | .spinner _ (.info _) => !t.hidden
  | .spinner _ (.update _) | .spinner _ .stop => false
  | .openIndicator _ _ | .indicator _ _ | .openSpinner _ | .notify _ _ => false

/-- The terminal after a call that broke off when so much had been written.  A spinner that was to
leave a line has stopped, and one that was to start does not run. -/
def breakOff (c : Call) (written : String) (t : Terminal) : Terminal :=
  match c with
  | .spinner n act => (if act.halts then t.stopSpinner n else t).write .stdout written
  | .throttle console _ => t.write console written
  | _ => t.write .stdout written

/-- How a terminal may answer a call. -/
inductive Answers (c : Call) (t : Terminal) : Outcome → Terminal → Prop
  | /-- It carries the call out. -/
    carriesOut : Answers c t (t.respond c).1 (t.respond c).2
  | /-- It breaks off. -/
    breaksOff (reason written : String) : t.writes c = true →
      Answers c t (.failed (.writeFailed reason)) (t.breakOff c written)

/-- A terminal that cannot be written, as a display. -/
def unwritable (reason : String) : Display Terminal :=
  ⟨fun c t ↦
    if t.writes c then (.failed (.writeFailed reason), t.breakOff c "") else t.respond c⟩

end Terminal

/-- The answers of a display are those of a terminal in its world. -/
def Display.ShowsOn {World : Type} (d : Display World) (view : World → Terminal) : Prop :=
  ∀ c w, (view w).Answers c (d.respond c w).1 (view (d.respond c w).2)

namespace Terminal

theorem display_showsOn : display.ShowsOn id := fun _ _ ↦ .carriesOut

theorem unwritable_showsOn (reason : String) : (unwritable reason).ShowsOn id := by
  intro c t
  simp only [unwritable, id]
  split
  · exact .breaksOff reason "" (by assumption)
  · exact .carriesOut

/-! ## What writing leaves alone -/

@[simp] theorem write_claimed (t : Terminal) (console : Console) (text : String) :
    (t.write console text).claimed = t.claimed := by
  cases console <;> rfl

@[simp] theorem write_indicators (t : Terminal) (console : Console) (text : String) :
    (t.write console text).indicators = t.indicators := by
  cases console <;> rfl

@[simp] theorem write_spinners (t : Terminal) (console : Console) (text : String) :
    (t.write console text).spinners = t.spinners := by
  cases console <;> rfl

theorem mem_spinners_stopSpinner_iff {t : Terminal} {n m : Nat} :
    m ∈ (t.stopSpinner n).spinners ↔ m ∈ t.spinners ∧ m ≠ n := by
  simp [stopSpinner]

/-! ## Spinners -/

theorem startSpinner_slot_eq (n : Nat) (t : Terminal) :
    (t.startSpinner n).claimed = t.claimed ∧ (t.startSpinner n).indicators = t.indicators := by
  unfold startSpinner
  split
  · exact ⟨rfl, rfl⟩
  · dsimp only
    split
    · exact ⟨rfl, rfl⟩
    · exact ⟨write_claimed .., write_indicators ..⟩

theorem finishSpinner_slot_eq (n : Nat) (line : String) (t : Terminal) :
    (t.finishSpinner n line).claimed = t.claimed ∧
      (t.finishSpinner n line).indicators = t.indicators := by
  unfold finishSpinner
  dsimp only
  split
  · exact ⟨rfl, rfl⟩
  · exact ⟨write_claimed .., write_indicators ..⟩

theorem actSpinner_slot_eq (t : Terminal) (n : Nat) (act : SpinnerAct) :
    (t.actSpinner n act).claimed = t.claimed ∧
    (t.actSpinner n act).indicators = t.indicators := by
  cases act with
  | start label => exact startSpinner_slot_eq n t
  | update label => exact ⟨rfl, rfl⟩
  | stop => exact ⟨rfl, rfl⟩
  | succeed label | fail label | info label => exact finishSpinner_slot_eq n _ t

theorem mem_spinners_startSpinner {t : Terminal} {n m : Nat}
    (h : m ∈ (t.startSpinner n).spinners) :
    m ∈ t.spinners ∨ m = n := by
  unfold startSpinner at h
  split at h
  · exact .inl h
  · rcases List.mem_cons.mp h with h | h
    · exact .inr h
    · left
      split at h
      · exact h
      · rwa [write_spinners] at h

theorem finishSpinner_spinners (n : Nat) (line : String) (t : Terminal) :
    (t.finishSpinner n line).spinners = (t.stopSpinner n).spinners := by
  unfold finishSpinner
  dsimp only
  split
  · rfl
  · exact write_spinners ..

/-- A spinner that runs after an act was running before and has not been halted, or has been
started. -/
theorem mem_spinners_actSpinner {t : Terminal} {n m : Nat} {act : SpinnerAct}
    (h : m ∈ (t.actSpinner n act).spinners) :
    (m ∈ t.spinners ∧ (act.halts = true → m ≠ n)) ∨ m = n ∧
      ∃ label, act = .start label := by
  cases act with
  | start label =>
    rcases mem_spinners_startSpinner h with h | h
    · exact .inl ⟨h, nofun⟩
    · exact .inr ⟨h, label, rfl⟩
  | update label => exact .inl ⟨h, nofun⟩
  | stop =>
    obtain ⟨hm, hne⟩ := mem_spinners_stopSpinner_iff.mp h
    exact .inl ⟨hm, fun _ ↦ hne⟩
  | succeed label | fail label | info label =>
    rw [actSpinner, finishSpinner_spinners, mem_spinners_stopSpinner_iff] at h
    exact .inl ⟨h.1, fun _ ↦ h.2⟩

/-! ## Indicators -/

theorem actIndicator_spinners (t : Terminal) (n : Nat) (act : IndicatorAct) :
    (t.actIndicator n act).2.spinners = t.spinners := by
  cases act with
  | start label =>
    unfold actIndicator startIndicator
    dsimp only
    split
    · rfl
    · split
      · rfl
      · rfl
  | update label => rfl
  | stop =>
    unfold actIndicator stopIndicator
    dsimp only
    split
    · rfl
    · rfl

/-! ## Answers -/

namespace Answers

variable {c : Call} {t t' : Terminal} {o : Outcome}

/-- A call that writes nothing is carried out. -/
theorem eq_respond (h : Answers c t o t') (hc : t.writes c = false) :
    o = (t.respond c).1 ∧ t' = (t.respond c).2 := by
  cases h with
  | carriesOut => exact ⟨rfl, rfl⟩
  | breaksOff reason written hw => exact absurd hw (by simp [hc])

/-- Only a call to an indicator can change what the slot says, or which indicators are running. -/
theorem slot_eq (h : Answers c t o t') (hc : ∀ n act, c ≠ .indicator n act) :
    t'.claimed = t.claimed ∧ t'.indicators = t.indicators := by
  cases h with
  | carriesOut =>
    cases c with
    | indicator n act => exact absurd rfl (hc n act)
    | spinner n act => exact actSpinner_slot_eq t n act
    | openIndicator n console | openSpinner n => exact ⟨rfl, rfl⟩
    | stream kind text endLine | throttle console delay | notify title message =>
      exact ⟨write_claimed .., write_indicators ..⟩
  | breaksOff reason written hw =>
    cases c with
    | spinner n act =>
      simp only [breakOff, write_claimed, write_indicators]
      split
      · exact ⟨rfl, rfl⟩
      · exact ⟨rfl, rfl⟩
    | _ => exact ⟨write_claimed .., write_indicators ..⟩

/-- Only an indicator can be refused because another one runs. -/
theorem ne_displayActive (h : Answers c t o t') (hc : ∀ n act, c ≠ .indicator n act) :
    o ≠ .failed .displayActive := by
  cases h with
  | carriesOut =>
    cases c with
    | indicator n act => exact absurd rfl (hc n act)
    | _ => exact nofun
  | breaksOff reason written hw => exact nofun

/-- A spinner that runs after an answer was running before and has not been halted, or has been
started. -/
theorem mem_spinners (h : Answers c t o t') {m : Nat} (hm : m ∈ t'.spinners) :
    (m ∈ t.spinners ∧ ∀ act, act.halts = true → c ≠ .spinner m act) ∨
      ∃ label, c = .spinner m (.start label) := by
  cases h with
  | carriesOut =>
    cases c with
    | spinner n act =>
      rcases mem_spinners_actSpinner hm with ⟨hm, hhalts⟩ | ⟨rfl, label, rfl⟩
      · refine .inl ⟨hm, fun act' hact hc ↦ ?_⟩
        obtain ⟨rfl, rfl⟩ := Call.spinner.inj hc
        exact hhalts hact rfl
      · exact .inr ⟨label, rfl⟩
    | indicator n act => exact .inl ⟨actIndicator_spinners t n act ▸ hm, nofun⟩
    | openIndicator n console | openSpinner n => exact .inl ⟨hm, nofun⟩
    | stream kind text endLine | throttle console delay | notify title message =>
      exact .inl ⟨by simpa [respond] using hm, nofun⟩
  | breaksOff reason written hw =>
    cases c with
    | spinner n act =>
      left
      simp only [breakOff, write_spinners] at hm
      split at hm
      · obtain ⟨hm, hne⟩ := mem_spinners_stopSpinner_iff.mp hm
        exact ⟨hm, fun act' _ hc ↦ hne (Call.spinner.inj hc).1.symm⟩
      · rename_i hact
        refine ⟨hm, fun act' hact' hc ↦ hact ?_⟩
        rwa [(Call.spinner.inj hc).2]
    | throttle console delay => exact .inl ⟨by simpa [breakOff] using hm, nofun⟩
    | _ => exact .inl ⟨by simpa [breakOff] using hm, nofun⟩

end Answers

end Terminal

namespace Display.ShowsOn

variable {World : Type} {d : Display World} {view : World → Terminal}

/-- A spinner that runs after some calls was running before and none of them has halted it, or one
of them has started it. -/
theorem mem_spinners_after (hd : d.ShowsOn view) {cs : List Call} {w : World} {m : Nat}
    (hm : m ∈ (view (d.after cs w)).spinners) :
    (m ∈ (view w).spinners ∧ ∀ act, act.halts = true → .spinner m act ∉ cs) ∨
      ∃ label, .spinner m (.start label) ∈ cs := by
  induction cs generalizing w with
  | nil => exact .inl ⟨hm, fun _ _ ↦ List.not_mem_nil⟩
  | cons c cs ih =>
    rcases ih hm with ⟨hmid, hcs⟩ | ⟨label, hlabel⟩
    · rcases (hd c w).mem_spinners hmid with ⟨hw, hc⟩ | ⟨label, rfl⟩
      · refine .inl ⟨hw, fun act hact hmem ↦ ?_⟩
        rcases List.mem_cons.mp hmem with heq | hmem
        · exact hc act hact heq.symm
        · exact hcs act hact hmem
      · exact .inr ⟨label, List.mem_cons_self⟩
    · exact .inr ⟨label, List.mem_cons_of_mem _ hlabel⟩

end Display.ShowsOn

end AgentConsole
