/-!
# Lines

A line ends at a line feed, and a carriage return directly before it belongs to the ending.  What
follows the last line feed is a line too unless it is empty.  The definition works on any list with
two marked items, so that it serves texts and raw bytes alike.
-/

namespace AgentConsole.Text

variable {α : Type} [DecidableEq α]

/-- A line held back to front, without a carriage return at its end. -/
def dropReturn (cr : α) : List α → List α
  | [] => []
  | c :: rest => if c = cr then rest else c :: rest

/-- The lines of `line.reverse ++ rest`, where `line` holds no line feed. -/
def linesFrom (lf cr : α) (line : List α) : List α → List (List α)
  | [] => if line.isEmpty then [] else [line.reverse]
  | c :: rest =>
    if c = lf then (dropReturn cr line).reverse :: linesFrom lf cr [] rest
    else linesFrom lf cr (c :: line) rest

/-- The lines of a list of items. -/
def linesOf (lf cr : α) (items : List α) : List (List α) :=
  linesFrom lf cr [] items

/-- The lines of a text. -/
def lines (s : String) : List String :=
  (linesOf '\n' '\r' s.toList).map String.ofList

@[simp] theorem linesOf_nil (lf cr : α) : linesOf lf cr [] = [] := rfl

/-- No line holds a line feed. -/
theorem lf_notMem_of_mem_linesFrom {lf cr : α} {line rest l : List α} (h : lf ∉ line)
    (hl : l ∈ linesFrom lf cr line rest) : lf ∉ l := by
  induction rest generalizing line with
  | nil =>
    cases line with
    | nil => simp [linesFrom] at hl
    | cons c cs => simp [linesFrom] at hl; subst hl; simpa [or_comm] using h
  | cons c rest ih =>
    by_cases hc : c = lf
    · simp only [linesFrom, hc, if_true, List.mem_cons] at hl
      rcases hl with rfl | hl
      · cases line with
        | nil => simp [dropReturn]
        | cons d ds => simp only [dropReturn]; split <;> simp_all
      · exact ih (by simp) hl
    · simp only [linesFrom, hc, if_false] at hl
      exact ih (by simp [h, Ne.symm hc]) hl

theorem lf_notMem_of_mem_linesOf {lf cr : α} {items l : List α} (hl : l ∈ linesOf lf cr items) :
    lf ∉ l :=
  lf_notMem_of_mem_linesFrom (by simp) hl

end AgentConsole.Text
