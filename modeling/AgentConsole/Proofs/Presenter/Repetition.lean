import AgentConsole.Proofs.Presenter.Entry
import AgentConsole.Proofs.Presenter.Frame

/-!
# Input that is delivered again

What has been seen of the current tool may be delivered again, in any order and with anything in
between that neither brings input of another tool nor ends one that is tracked.  To what a presenter
tracks this makes no difference, and the calls are those of what comes in between: it is as if the
callbacks had lost their tools.

* `Callback.Repeats` : what a callback may bring.
* `Tracking.play_of_repeats` : what the cues of such callbacks do.
* `Stage.run_of_repeats` : the same of a run.
-/

namespace AgentConsole

/-- A callback brings, if any, input of a tool that is not larger than all the given sizes, and
results of tools that are not among the given ones. -/
structure Callback.Repeats (id : ToolId) (sizes : List Nat) (tools : Tools)
    (c : Callback) : Prop where
  input : ∀ u, c.input? = some u → u.id = id ∧ ∃ size ∈ sizes, u.size ≤ size
  unmatched : ∀ r ∈ c.userResults, ∀ ended, r.id = some ended → tools.find? ended = none

/-- A callback that has lost its tool. -/
def Callback.withoutTool (c : Callback) : Callback := { c with tool := none }

def Delivery.withoutTool (x : Delivery) : Delivery := { x with callback := x.callback.withoutTool }

/-! ## Cues -/

/-- Whether a cue is input of a tool. -/
def Cue.isInput : Cue → Bool
  | .input _ _ => true
  | .indicate _ | .write _ _ _ | .throttle _ _ | .halt | .announce _ | .result _ _ _ => false

/-- What the cues of a callback may be that repeats input of no larger size than `largest`. -/
def Cue.Repeats (id : ToolId) (largest : Nat) (tools : Tools) : Cue → Prop
  | .input _ u => u.id = id ∧ u.size ≤ largest
  | .result _ ended _ => tools.find? ended = none
  | .indicate _ | .write _ _ _ | .throttle _ _ | .halt | .announce _ => True

/-- Without its tool a callback has all its cues but the input. -/
theorem Callback.cues_withoutTool (now : Nat) (c : Callback) :
    c.withoutTool.cues now = (c.cues now).filter (!·.isInput) := by
  have hplain : c.plainCues.filter (!·.isInput) = c.plainCues := by
    refine List.filter_eq_self.mpr fun q hq ↦ ?_
    have hnone := tool?_of_mem_plainCues hq
    cases q with
    | input time u => cases hnone
    | _ => rfl
  have hinput : (c.inputCues now).filter (!·.isInput) = [] := by
    unfold inputCues
    cases c.input? <;> rfl
  have hmessage : (c.messageCues now).filter (!·.isInput) = c.messageCues now := by
    refine List.filter_eq_self.mpr fun q hq ↦ ?_
    cases q with
    | input time u => exact absurd hq (input_notMem_messageCues now time c u)
    | _ => rfl
  rw [cues, cues, List.filter_append, List.filter_append, hplain, hinput, hmessage]
  rfl

theorem Delivery.cues_map_withoutTool (deliveries : List Delivery) :
    (deliveries.map withoutTool).flatMap cues = (deliveries.flatMap cues).filter (!·.isInput) := by
  rw [List.flatMap_map, List.filter_flatMap]
  exact congrArg (deliveries.flatMap ·) (funext fun x ↦ x.callback.cues_withoutTool x.time)

theorem Cue.Repeats.noProgress {id : ToolId} {largest : Nat} {tools : Tools} {q : Cue}
    (h : q.Repeats id largest tools) (hq : q.isInput = false) : q.NoProgress tools := by
  cases q with
  | input now u => cases hq
  | _ => exact h

theorem Callback.Repeats.cues {id : ToolId} {sizes : List Nat} {largest : Nat} {tools : Tools}
    {c : Callback} {now : Nat} {q : Cue} (h : c.Repeats id sizes tools)
    (hsizes : ∀ size ∈ sizes, size ≤ largest)
    (hq : q ∈ c.cues now) : q.Repeats id largest tools := by
  cases q with
  | input time u =>
    obtain ⟨hid, size, hmem, hle⟩ := h.input u (input_mem_cues_iff.mp hq).2
    exact ⟨hid, Nat.le_trans hle (hsizes size hmem)⟩
  | result time ended e =>
    obtain ⟨r, hr, hended, -⟩ := (result_mem_cues_iff.mp hq).2
    exact h.unmatched r hr ended hended
  | _ => trivial

namespace Tracking

variable {t : Tracking} {id : ToolId} {i : Invocation} {q : Cue}

/-- Input that repeats what has been seen changes nothing, and makes no calls. -/
theorem step_input_of_repeats (now : Nat) {u : ToolInput} (hcurrent : t.current = some u.id)
    (hi : t.tools.find? u.id = some i) (hle : u.size ≤ i.largest) :
    t.step (.input now u) = t ∧ t.calls (.input now u) = [] := by
  have hlt : ¬ i.largest < u.size := Nat.not_lt.mpr hle
  refine ⟨?_, ?_⟩
  · simp only [step, turn_of_eq now hcurrent, observe, hi, if_neg hlt]
  · rw [calls_input_of_eq hcurrent hi, if_neg hlt]

/-- Cues that repeat what has been seen of the current tool change no more than the number of
displays, and do what they do without the input. -/
theorem play_of_repeats {cues : List Cue} (hcurrent : t.current = some id)
    (hi : t.tools.find? id = some i) (h : ∀ q ∈ cues, q.Repeats id i.largest t.tools) :
    (∃ opened, t.play cues = { t with opened }) ∧
      t.trace cues = t.trace (cues.filter (!·.isInput)) := by
  induction cues generalizing t with
  | nil => exact ⟨⟨t.opened, rfl⟩, rfl⟩
  | cons q rest ih =>
    have hrest : ∀ p ∈ rest, p.Repeats id i.largest t.tools :=
      fun p hp ↦ h p (List.mem_cons_of_mem _ hp)
    have hq := h q List.mem_cons_self
    cases hinput : q.isInput with
    | true =>
      cases q with
      | input now u =>
        obtain ⟨rfl, hle⟩ := hq
        obtain ⟨hstep, hcalls⟩ := step_input_of_repeats now hcurrent hi hle
        rw [play_cons, trace_cons, hstep, hcalls, List.filter_cons_of_neg (by simp [hinput])]
        exact ih hcurrent hi hrest
      | _ => cases hinput
    | false =>
      obtain ⟨opened, hstep⟩ := step_of_noProgress (hq.noProgress hinput)
      rw [play_cons, trace_cons, List.filter_cons_of_pos (by simp [hinput]), trace_cons, hstep]
      obtain ⟨⟨opened', hplay⟩, htrace⟩ := ih (t := { t with opened }) hcurrent hi hrest
      exact ⟨⟨opened', hplay⟩, by rw [htrace]⟩

end Tracking

namespace Stage

variable {World : Type}

/-- Callbacks that repeat what has been seen of the current tool change neither that tool nor any
entry, and call for what they call for without their tools. -/
theorem run_of_repeats (d : Display World) {s : Stage World} {id : ToolId} {i : Invocation}
    {sizes : List Nat} {more : List Delivery} (hcurrent : s.presenter.current = some id)
    (hi : s.presenter.tools.find? id = some i)
    (hsizes : ∀ size ∈ sizes, size ≤ i.largest)
    (h : ∀ x ∈ more, x.callback.Repeats id sizes s.presenter.tools) :
    let s' := run d more s
    s'.presenter.current = s.presenter.current ∧ s'.presenter.tools = s.presenter.tools ∧
      s'.steadyCalls = (run d (more.map Delivery.withoutTool) s).steadyCalls := by
  have hcues : ∀ q ∈ more.flatMap Delivery.cues, q.Repeats id i.largest s.tracking.tools := by
    intro q hq
    obtain ⟨x, hx, hq⟩ := List.mem_flatMap.mp hq
    exact (h x hx).cues hsizes hq
  obtain ⟨⟨opened, hplay⟩, htrace⟩ :=
    Tracking.play_of_repeats (t := s.tracking) hcurrent hi hcues
  have hfollows := follows_run d more s
  have hbare := follows_run d (more.map Delivery.withoutTool) s
  rw [Delivery.cues_map_withoutTool] at hbare
  have htracking := hfollows.tracking.trans hplay
  refine ⟨congrArg Tracking.current htracking, congrArg Tracking.tools htracking, ?_⟩
  rw [hfollows.steadyCalls, hbare.steadyCalls, htrace]

end Stage

end AgentConsole
