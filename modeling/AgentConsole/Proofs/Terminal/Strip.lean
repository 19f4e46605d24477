import AgentConsole.Terminal.Paint
import Mathlib.Data.List.Forall2

/-!
# Text without its colors

A colored text is taken back by deleting all sequences that set a manner.  To delete them one after
the other is not to delete them piece by piece: a sequence may begin in one piece and end in the
next, and a piece that ends in the middle of a sequence hides what follows.  So a colored piece is
to show the same text *wherever it stands* (`Paint.Shows`), and this is kept when pieces are put
together.

* `Paint.Shows.append` : pieces behind each other.
* `Paint.shows_self`, `Paint.shows_apply` : texts without any escape character, as they are and set
  off.
-/

namespace AgentConsole.Paint

/-! ## Deleting sequences -/

/-- The characters that may stand among the parameters of a sequence. -/
def isParameter (c : Char) : Bool := c.isDigit || c == ';' || c == ':'

/-- What follows the sequence that a text begins with, if it begins with one. -/
def afterSequence? : List Char → Option (List Char)
  | '\x1b' :: '[' :: rest =>
    match rest.dropWhile isParameter with
    | 'm' :: rest => some rest
    | _ => none
  | _ => none

theorem length_lt_of_afterSequence? {cs rest : List Char} (h : afterSequence? cs = some rest) :
    rest.length < cs.length := by
  unfold afterSequence? at h
  split at h
  · rename_i rest'
    split at h
    · rename_i heq
      cases h
      have hle := (List.dropWhile_suffix (p := isParameter) (l := rest')).length_le
      rw [heq, List.length_cons] at hle
      rw [List.length_cons, List.length_cons]
      omega
    · cases h
  · cases h

/-- The characters of a text without the sequences that set a manner. -/
def stripChars : List Char → List Char
  | [] => []
  | c :: rest =>
    match h : afterSequence? (c :: rest) with
    | some rest' =>
      have := length_lt_of_afterSequence? h
      stripChars rest'
    | none => c :: stripChars rest
termination_by cs => cs.length
decreasing_by
  · exact this
  · exact Nat.lt_succ_self _

/-- A text without the sequences that set a manner. -/
def strip (s : String) : String := String.ofList (stripChars s.toList)

theorem stripChars_of_afterSequence? {cs rest : List Char} (h : afterSequence? cs = some rest) :
    stripChars cs = stripChars rest := by
  cases cs with
  | nil => cases h
  | cons c cs =>
    rw [stripChars]
    split
    · rename_i rest' heq
      cases heq.symm.trans h
      rfl
    · rename_i heq
      cases heq.symm.trans h

theorem stripChars_cons {c : Char} (h : c ≠ esc) (rest : List Char) :
    stripChars (c :: rest) = c :: stripChars rest := by
  have hnone : afterSequence? (c :: rest) = none := by
    unfold afterSequence?
    split
    · rename_i heq
      cases heq
      exact absurd rfl h
    · rfl
  rw [stripChars]
  split
  · rename_i heq
    cases heq.symm.trans hnone
  · rfl

theorem stripChars_sequence {parameters : List Char} (h : parameters.all isParameter = true)
    (rest : List Char) :
    stripChars (esc :: '[' :: (parameters ++ 'm' :: rest)) = stripChars rest := by
  refine stripChars_of_afterSequence? ?_
  rw [esc, afterSequence?, List.dropWhile_append_of_pos (List.all_eq_true.mp h),
    List.dropWhile_cons_of_neg (by decide)]
  rfl

theorem stripChars_opening (p : Paint) (rest : List Char) :
    stripChars (p.opening ++ rest) = stripChars rest := by
  have h : p.code.toList.all isParameter = true := by cases p <;> rfl
  rw [opening, List.cons_append, List.cons_append, List.append_assoc, List.singleton_append,
    stripChars_sequence h]

theorem stripChars_reset (rest : List Char) : stripChars (reset ++ rest) = stripChars rest := by
  have h : ['0'].all isParameter = true := rfl
  exact stripChars_sequence h rest

/-- Other sequences stay, and so does what is only the beginning of one. -/
example : strip "\x1b[1;31ma\x1b[0m\x1b[2Kb\x1b[3" = "a\x1b[2Kb\x1b[3" := by cbv

/-! ## Texts that are not colored -/

/-- A text without any escape character. -/
def Bare (s : String) : Prop := esc ∉ s.toList

instance (s : String) : Decidable (Bare s) := inferInstanceAs (Decidable (esc ∉ s.toList))

@[simp] theorem bare_append {s t : String} : Bare (s ++ t) ↔ Bare s ∧ Bare t := by
  simp [Bare]

theorem stripChars_append {cs : List Char} (h : esc ∉ cs) (rest : List Char) :
    stripChars (cs ++ rest) = cs ++ stripChars rest := by
  induction cs with
  | nil => rfl
  | cons c cs ih =>
    rw [List.mem_cons, not_or] at h
    rw [List.cons_append, stripChars_cons (Ne.symm h.1), ih h.2, List.cons_append]

/-- Where nothing is reset nothing is opened again. -/
theorem reopen_eq {cs : List Char} (h : esc ∉ cs) (opening : List Char) :
    reopen opening cs = cs := by
  induction cs with
  | nil => rfl
  | cons c cs ih =>
    rw [List.mem_cons, not_or] at h
    rw [reopen, ih h.2]
    rintro rest rfl -
    exact h.1 rfl

/-! ## Colored pieces -/

/-- A piece without its colors is a text, whatever follows. -/
def Shows (colored plain : String) : Prop :=
  ∀ rest, stripChars (colored.toList ++ rest) = plain.toList ++ stripChars rest

/-- A piece by itself. -/
theorem Shows.strip_eq {colored plain : String} (h : Shows colored plain) :
    strip colored = plain := by
  have hnil := h []
  rw [List.append_nil, stripChars, List.append_nil] at hnil
  rw [strip, hnil, String.ofList_toList]

/-- A piece and what follows it. -/
theorem Shows.append {colored colored' plain plain' : String} (h : Shows colored plain)
    (h' : Shows colored' plain') : Shows (colored ++ colored') (plain ++ plain') := by
  intro rest
  rw [String.toList_append, String.toList_append, List.append_assoc, h, h', List.append_assoc]

theorem shows_nil : Shows "" "" := fun _ ↦ rfl

theorem shows_self {s : String} (h : Bare s) : Shows s s := stripChars_append h

/-- A text that is set off shows itself. -/
theorem shows_apply {s : String} (h : Bare s) (on : Bool) (p : Paint) : Shows (p.apply on s) s := by
  cases on with
  | false => exact shows_self h
  | true =>
    intro rest
    have htext : (p.apply true s).toList = p.opening ++ (s.toList ++ reset) := by
      simp [apply, reopen_eq h]
    rw [htext, List.append_assoc, List.append_assoc, stripChars_opening, stripChars_append h,
      stripChars_reset]

/-- Pieces with the same text between them. -/
theorem shows_intercalate {sep : String} (hsep : Bare sep) {colored plain : List String}
    (h : List.Forall₂ Shows colored plain) :
    Shows (sep.intercalate colored) (sep.intercalate plain) := by
  induction h with
  | nil => exact shows_nil
  | cons hfirst hrest ih =>
    cases hrest with
    | nil =>
      rw [String.intercalate_singleton, String.intercalate_singleton]
      exact hfirst
    | cons hnext hrest =>
      rw [String.intercalate_cons_cons, String.intercalate_cons_cons]
      exact (hfirst.append (shows_self hsep)).append ih

end AgentConsole.Paint
