import AgentConsole.Presenter.Stage

/-!
# Events as the answers of a display

An event joins a call to the way it ended, and by itself says nothing of the display.  Here the two
are tied together: some events lead from one world to another (`Display.Leads`) if each of them
ended as the display answers the call, in the world that the events before it have left.

A presenter changes its world by calls alone, so that what is kept by every call of some kind is
kept by everything that a presenter does with such calls (`Display.Leads.keeps`).
-/

namespace AgentConsole

namespace Display

variable {World : Type} (d : Display World)

/-- The world after some calls. -/
def after (cs : List Call) (w : World) : World :=
  cs.foldl (fun w c ↦ (d.respond c w).2) w

/-- Some events lead from one world to another. -/
def Leads : World → List Event → World → Prop
  | w, [], w' => w' = w
  | w, e :: rest, w' => e.outcome = (d.respond e.call w).1 ∧ Leads (d.respond e.call w).2 rest w'

variable {d}

@[simp] theorem after_nil (w : World) : d.after [] w = w := rfl

@[simp] theorem after_cons (c : Call) (cs : List Call) (w : World) :
    d.after (c :: cs) w = d.after cs (d.respond c w).2 := rfl

theorem after_append (cs cs' : List Call) (w : World) :
    d.after (cs ++ cs') w = d.after cs' (d.after cs w) := List.foldl_append

@[simp] theorem leads_nil_iff {w w' : World} : d.Leads w [] w' ↔ w' = w := .rfl

@[simp] theorem leads_cons_iff {w w' : World} {e : Event} {es : List Event} :
    d.Leads w (e :: es) w' ↔
      e.outcome = (d.respond e.call w).1 ∧ d.Leads (d.respond e.call w).2 es w' := .rfl

theorem leads_append_iff {w w' : World} {es new : List Event} :
    d.Leads w (es ++ new) w' ↔ ∃ m, d.Leads w es m ∧ d.Leads m new w' := by
  induction es generalizing w with
  | nil => simp
  | cons e es ih =>
    rw [List.cons_append, leads_cons_iff, ih]
    constructor
    · rintro ⟨ho, m, hm, hw⟩
      exact ⟨m, ⟨ho, hm⟩, hw⟩
    · rintro ⟨m, ⟨ho, hm⟩, hw⟩
      exact ⟨ho, m, hm, hw⟩

namespace Leads

/-- Which world events lead to shows in their calls. -/
theorem eq_after {w w' : World} {es : List Event} (h : d.Leads w es w') :
    w' = d.after (es.map (·.call)) w := by
  induction es generalizing w with
  | nil => exact h
  | cons e es ih => exact ih h.2

/-- From the same world the same calls make the same events. -/
theorem eq_of_calls_eq {w v v' : World} {es es' : List Event} (h : d.Leads w es v)
    (h' : d.Leads w es' v') (hcalls : es.map (·.call) = es'.map (·.call)) : es = es' := by
  induction es generalizing w es' with
  | nil => exact (List.map_eq_nil_iff.mp hcalls.symm).symm
  | cons e es ih =>
    obtain ⟨e', es', rfl, hcall, hrest⟩ := List.map_eq_cons_iff.mp hcalls.symm
    obtain ⟨c, o⟩ := e
    obtain ⟨c', o'⟩ := e'
    obtain rfl : c' = c := hcall
    obtain rfl : o = o' := h.1.trans h'.1.symm
    exact congrArg _ (ih h.2 h'.2 hrest.symm)

/-- What every call of some events keeps, the events keep. -/
theorem keeps {P : World → Prop} {w w' : World} {es : List Event} (h : d.Leads w es w')
    (hP : ∀ e ∈ es, ∀ w, P w → P (d.respond e.call w).2) (hw : P w) : P w' := by
  induction es generalizing w with
  | nil => exact (leads_nil_iff.mp h) ▸ hw
  | cons e es ih =>
    refine ih h.2 (fun e he ↦ hP e (List.mem_cons_of_mem _ he)) ?_
    exact hP e List.mem_cons_self w hw

/-- What holds of every answer to the calls of some events holds of their outcomes. -/
theorem forall_outcome {Q : Outcome → Prop} {w w' : World} {es : List Event} (h : d.Leads w es w')
    (hQ : ∀ e ∈ es, ∀ w, Q (d.respond e.call w).1) : ∀ e ∈ es, Q e.outcome := by
  induction es generalizing w with
  | nil => simp
  | cons e es ih =>
    intro x hx
    rcases List.mem_cons.mp hx with rfl | hx
    · rw [h.1]
      exact hQ x List.mem_cons_self w
    · exact ih h.2 (fun e he ↦ hQ e (List.mem_cons_of_mem _ he)) x hx

end Leads

end Display

namespace Stage

variable {World : Type}

/-- Between two stages the world has changed by calls alone, and the events tell of all of them. -/
def Answered (d : Display World) (s s' : Stage World) : Prop :=
  ∃ new, s'.events = s.events ++ new ∧ d.Leads s.world new s'.world

namespace Answered

variable {d : Display World}

/-- Where there is neither a new event nor another world. -/
theorem of_eq {s s' : Stage World} (he : s'.events = s.events) (hw : s'.world = s.world) :
    Answered d s s' := ⟨[], by simp [he], hw⟩

theorem refl (s : Stage World) : Answered d s s := of_eq rfl rfl

theorem trans {s m s' : Stage World} (h : Answered d s m) (h' : Answered d m s') :
    Answered d s s' := by
  obtain ⟨new, he, hw⟩ := h
  obtain ⟨more, he', hw'⟩ := h'
  refine ⟨new ++ more, ?_, Display.leads_append_iff.mpr ⟨m.world, hw, hw'⟩⟩
  rw [he', he, List.append_assoc]

/-- The new events lead from the one world to the other. -/
theorem leads {s s' : Stage World} (h : Answered d s s') {new : List Event}
    (events : s'.events = s.events ++ new) : d.Leads s.world new s'.world := by
  obtain ⟨new', he, hw⟩ := h
  rwa [List.append_cancel_left (events.symm.trans he)]

/-- What every call keeps is kept between two stages. -/
theorem keeps {P : World → Prop} (hP : ∀ c w, P w → P (d.respond c w).2) {s s' : Stage World}
    (h : Answered d s s') (hs : P s.world) : P s'.world := by
  obtain ⟨new, -, hw⟩ := h
  exact hw.keeps (fun e _ ↦ hP e.call) hs

end Answered

theorem answered_call (d : Display World) (s : Stage World) (c : Call) :
    Answered d s (s.call d c).2 := ⟨[⟨c, (s.call d c).1⟩], rfl, rfl, rfl⟩

end Stage

end AgentConsole
