/-!
# Blank text

The characters of Unicode's White_Space property, trimming them from both ends of a text, and texts
that hold nothing else.

* `Text.trim` : the text without surrounding blanks;
* `Text.isBlank_iff_trim` : a text is blank exactly when trimming leaves nothing.
-/

namespace AgentConsole.Text

/-- The ranges of White_Space, lowest first. -/
def spaceRanges : List (Nat × Nat) :=
  [(0x09, 0x0D), (0x20, 0x20), (0x85, 0x85), (0xA0, 0xA0), (0x1680, 0x1680), (0x2000, 0x200A),
    (0x2028, 0x2029), (0x202F, 0x202F), (0x205F, 0x205F), (0x3000, 0x3000)]

/-- Whether a character has the White_Space property. -/
def isSpace (c : Char) : Bool :=
  spaceRanges.any fun r ↦ r.1 ≤ c.toNat && c.toNat ≤ r.2

/-- The characters between the first and the last that is not white space. -/
def trimChars (cs : List Char) : List Char :=
  ((cs.dropWhile isSpace).reverse.dropWhile isSpace).reverse

/-- A text without its surrounding white space. -/
def trim (s : String) : String :=
  String.ofList (trimChars s.toList)

/-- A text of white space only; the empty text is one. -/
def isBlank (s : String) : Bool :=
  s.toList.all isSpace

theorem dropWhile_eq_nil_iff_all {α : Type} (p : α → Bool) (l : List α) :
    l.dropWhile p = [] ↔ l.all p = true := by
  induction l with
  | nil => simp
  | cons a l ih =>
    by_cases h : p a = true
    · simp [h, List.dropWhile_cons_of_pos, ih]
    · simp [h]

theorem trimChars_eq_nil_iff (cs : List Char) : trimChars cs = [] ↔ cs.all isSpace = true := by
  rw [trimChars, List.reverse_eq_nil_iff, dropWhile_eq_nil_iff_all, List.all_reverse]
  constructor
  · intro h
    rw [← dropWhile_eq_nil_iff_all]
    cases hd : cs.dropWhile isSpace with
    | nil => rfl
    | cons c r =>
      rw [hd] at h
      have hc := List.head_dropWhile_not isSpace (by rw [hd]; simp : cs.dropWhile isSpace ≠ [])
      simp only [hd, List.head_cons] at hc
      simp [hc] at h
  · intro h
    simp [(dropWhile_eq_nil_iff_all isSpace cs).2 h]

/-- A text is blank exactly when trimming leaves nothing. -/
theorem isBlank_iff_trim (s : String) : isBlank s = true ↔ trim s = "" := by
  rw [isBlank, ← trimChars_eq_nil_iff, trim]
  constructor
  · exact fun h ↦ by rw [h]
  · intro h
    have := congrArg String.toList h
    simpa using this

end AgentConsole.Text
