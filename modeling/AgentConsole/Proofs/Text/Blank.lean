import AgentConsole.Text.Blank

/-!
# Trimmed text

Trimming takes white space away until there is none at either end, and takes nothing else.  So a
text has been trimmed exactly if its ends are not white space, and trimming it once more leaves it
as it is.

* `Text.trim_eq_self_iff` : which texts trimming leaves alone.
-/

namespace AgentConsole.Text

/-- Neither end of a text is white space; the empty text has no ends. -/
structure Trimmed (s : String) : Prop where
  head : ∀ c ∈ s.toList.head?, isSpace c = false
  last : ∀ c ∈ s.toList.getLast?, isSpace c = false

theorem not_of_mem_head?_dropWhile {α : Type} {p : α → Bool} {l : List α} {a : α}
    (h : a ∈ (l.dropWhile p).head?) : p a = false := by
  have hnot := List.head?_dropWhile_not p l
  rw [Option.mem_def.mp h] at hnot
  exact hnot

/-- What is left after dropping items in front ends as before. -/
theorem mem_getLast?_of_dropWhile {α : Type} {p : α → Bool} {l : List α} {a : α}
    (h : a ∈ (l.dropWhile p).getLast?) : a ∈ l.getLast? := by
  rw [← List.takeWhile_append_dropWhile (p := p) (l := l), List.getLast?_append,
    Option.mem_def.mp h]
  rfl

theorem dropWhile_eq_self_of_head? {α : Type} {p : α → Bool} {l : List α}
    (h : ∀ a ∈ l.head?, p a = false) : l.dropWhile p = l := by
  cases l with
  | nil => rfl
  | cons a l => rw [List.dropWhile_cons_of_neg (by simp [h a rfl])]

theorem trimmed_trim (s : String) : Trimmed (trim s) := by
  constructor
  · intro c hc
    rw [trim, String.toList_ofList, trimChars, List.head?_reverse] at hc
    have hfront := mem_getLast?_of_dropWhile hc
    rw [List.getLast?_reverse] at hfront
    exact not_of_mem_head?_dropWhile hfront
  · intro c hc
    rw [trim, String.toList_ofList, trimChars, List.getLast?_reverse] at hc
    exact not_of_mem_head?_dropWhile hc

/-- Trimming leaves alone the texts whose ends are not white space. -/
theorem trim_eq_self_iff {s : String} : trim s = s ↔ Trimmed s := by
  constructor
  · intro h
    exact h ▸ trimmed_trim s
  · intro h
    have hfront : s.toList.dropWhile isSpace = s.toList := dropWhile_eq_self_of_head? h.head
    have hback : s.toList.reverse.dropWhile isSpace = s.toList.reverse :=
      dropWhile_eq_self_of_head? fun c hc ↦ h.last c (List.head?_reverse ▸ hc)
    rw [trim, trimChars, hfront, hback, List.reverse_reverse, String.ofList_toList]

@[simp] theorem trim_trim (s : String) : trim (trim s) = trim s :=
  trim_eq_self_iff.mpr (trimmed_trim s)

/-- To trim a text does not make it blank, and leaves nothing of a blank one. -/
theorem isBlank_trim (s : String) : isBlank (trim s) = isBlank s := by
  rw [Bool.eq_iff_iff, isBlank_iff_trim, isBlank_iff_trim, trim_trim]

/-- What begins with a text that is not blank is not blank. -/
theorem isBlank_append_of_left {s : String} (t : String) (h : isBlank s = false) :
    isBlank (s ++ t) = false := by
  rw [isBlank, String.toList_append, List.all_append]
  exact congrArg (· && _) h

end AgentConsole.Text
