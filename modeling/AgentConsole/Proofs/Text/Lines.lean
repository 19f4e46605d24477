import AgentConsole.Text.Blank
import AgentConsole.Text.Lines
import AgentConsole.Text.Utf8

/-!
# What lines are

`Text.linesOf` goes through a text item by item.  What comes of it can be said at once: cut the text
at its line feeds, and take a carriage return off the end of every piece but the last.  The last
piece has not been ended by anything, so it is a line as it stands, and no line if nothing is left
of it.

A file of lines is taken apart as bytes, before any of them is known to be text.  That is sound
because UTF-8 spells no character but the line feed with the byte of the line feed.

* `Text.linesOf_eq_splitLines` : lines are what is left between line feeds.
* `Text.linesOf_flatMap` : lines that are written one after the other are found again.
* `Text.mem_encode_iff` : an ASCII byte stands for its character only.
-/

namespace AgentConsole.Text

section

variable {α : Type} [DecidableEq α]

/-- What precedes a line feed, without a carriage return at its end. -/
def chomp (cr : α) (piece : List α) : List α :=
  if piece.getLast? = some cr then piece.dropLast else piece

/-- The pieces between line feeds; the last of them has no ending and must not be empty. -/
def splitLines (lf cr : α) (items : List α) : List (List α) :=
  let pieces := items.splitOn lf
  pieces.dropLast.map (chomp cr) ++ pieces.getLast?.toList.filter (· ≠ [])

theorem reverse_dropReturn (cr : α) (line : List α) :
    (dropReturn cr line).reverse = chomp cr line.reverse := by
  cases line with
  | nil => simp [dropReturn, chomp]
  | cons c rest =>
    by_cases hc : c = cr
    · simp [dropReturn, chomp, hc]
    · simp [dropReturn, chomp, hc]

/-- The first line feed ends the first line. -/
theorem splitLines_append_cons {lf : α} (cr : α) {line : List α} (h : lf ∉ line)
    (rest : List α) :
    splitLines lf cr (line ++ lf :: rest) = chomp cr line :: splitLines lf cr rest := by
  have hsplit : (line ++ lf :: rest).splitOn lf = line :: rest.splitOn lf := by
    refine List.splitOnP_append_cons_of_forall_mem ?_ lf (by simp) rest
    intro x hx
    exact beq_eq_false_iff_ne.mpr fun he ↦ h (he ▸ hx)
  have hne : rest.splitOn lf ≠ [] := List.splitOnP_ne_nil _ rest
  rw [splitLines, hsplit, List.dropLast_cons_of_ne_nil hne, List.getLast?_cons_of_ne_nil hne]
  rfl

/-- Without a line feed there is one line, if there is anything at all. -/
theorem splitLines_of_notMem {lf : α} (cr : α) {line : List α} (h : lf ∉ line) :
    splitLines lf cr line = if line = [] then [] else [line] := by
  have hsplit : line.splitOn lf = [line] := by
    refine List.splitOnP_eq_singleton ?_
    intro x hx
    exact beq_eq_false_iff_ne.mpr fun he ↦ h (he ▸ hx)
  rw [splitLines, hsplit]
  by_cases hl : line = [] <;> simp [hl]

theorem linesFrom_eq_splitLines (lf cr : α) {line : List α} (h : lf ∉ line) (rest : List α) :
    linesFrom lf cr line rest = splitLines lf cr (line.reverse ++ rest) := by
  -- the characters of the current line have been taken over, so they come back in front of the rest
  induction rest generalizing line with
  | nil =>
    rw [List.append_nil, splitLines_of_notMem cr (by simpa using h), linesFrom]
    simp
  | cons c rest ih =>
    by_cases hc : c = lf
    · subst hc
      rw [splitLines_append_cons cr (by simpa using h), linesFrom, if_pos rfl, reverse_dropReturn,
        ih (by simp), List.reverse_nil, List.nil_append]
    · have hcons : lf ∉ c :: line := by
        rw [List.mem_cons, not_or]
        exact ⟨Ne.symm hc, h⟩
      rw [linesFrom, if_neg hc, ih hcons, List.reverse_cons, List.append_assoc,
        List.singleton_append]

/-- Lines are what is left between line feeds. -/
theorem linesOf_eq_splitLines (lf cr : α) (items : List α) :
    linesOf lf cr items = splitLines lf cr items :=
  linesFrom_eq_splitLines lf cr (by simp) items

/-- Lines that are written one after the other are found again, unless a line feed stands in one of
them or a carriage return at its end. -/
theorem linesOf_flatMap {lf cr : α} {lines : List (List α)}
    (h : ∀ line ∈ lines, lf ∉ line ∧ cr ∉ line) :
    linesOf lf cr (lines.flatMap (· ++ [lf])) = lines := by
  rw [linesOf_eq_splitLines]
  induction lines with
  | nil => rfl
  | cons line lines ih =>
    obtain ⟨hlf, hcr⟩ := h line (by simp)
    have hlast : ¬ line.getLast? = some cr := fun he ↦ hcr (List.mem_of_getLast? he)
    rw [List.flatMap_cons, List.append_assoc, List.singleton_append, splitLines_append_cons cr hlf,
      ih (fun l hl ↦ h l (by simp [hl])), chomp, if_neg hlast]

/-- So are lines with line feeds between them, if none of them is empty. -/
theorem linesOf_intercalate {lf cr : α} {lines : List (List α)}
    (h : ∀ line ∈ lines, lf ∉ line ∧ line.getLast? ≠ some cr ∧ line ≠ []) :
    linesOf lf cr ([lf].intercalate lines) = lines := by
  rw [linesOf_eq_splitLines]
  induction lines with
  | nil => rfl
  | cons line lines ih =>
    obtain ⟨hlf, hcr, hne⟩ := h line List.mem_cons_self
    cases lines with
    | nil => rw [List.intercalate_singleton, splitLines_of_notMem cr hlf, if_neg hne]
    | cons next lines =>
      rw [List.intercalate_cons_cons, List.append_assoc, List.singleton_append,
        splitLines_append_cons cr hlf, ih (fun l hl ↦ h l (List.mem_cons_of_mem _ hl)),
        chomp, if_neg hcr]

theorem mem_of_mem_dropReturn {cr c : α} {line : List α} (h : c ∈ dropReturn cr line) :
    c ∈ line := by
  cases line with
  | nil => exact h
  | cons d rest =>
    rw [dropReturn] at h
    split at h
    · exact List.mem_cons_of_mem _ h
    · exact h

/-- A line has nothing but items of the text. -/
theorem mem_or_mem_of_mem_linesFrom {lf cr c : α} {line rest l : List α}
    (hl : l ∈ linesFrom lf cr line rest) (hc : c ∈ l) : c ∈ line ∨ c ∈ rest := by
  induction rest generalizing line with
  | nil =>
    rw [linesFrom] at hl
    split at hl
    · cases hl
    · rw [List.mem_singleton.mp hl, List.mem_reverse] at hc
      exact .inl hc
  | cons d rest ih =>
    rw [linesFrom] at hl
    split at hl
    · rcases List.mem_cons.mp hl with rfl | hl
      · exact .inl (mem_of_mem_dropReturn (List.mem_reverse.mp hc))
      · rcases ih hl with hnil | hrest
        · cases hnil
        · exact .inr (List.mem_cons_of_mem _ hrest)
    · rcases ih hl with hline | hrest
      · rcases List.mem_cons.mp hline with rfl | hline
        · exact .inr List.mem_cons_self
        · exact .inl hline
      · exact .inr (List.mem_cons_of_mem _ hrest)

end

theorem mem_of_mem_lines {s line : String} {c : Char} (h : line ∈ lines s)
    (hc : c ∈ line.toList) :
    c ∈ s.toList := by
  obtain ⟨chars, hchars, rfl⟩ := List.mem_map.mp h
  rw [String.toList_ofList] at hc
  rcases mem_or_mem_of_mem_linesFrom hchars hc with hnil | hmem
  · cases hnil
  · exact hmem

theorem lf_notMem_of_mem_lines {s line : String} (h : line ∈ lines s) : '\n' ∉ line.toList := by
  obtain ⟨chars, hchars, rfl⟩ := List.mem_map.mp h
  rw [String.toList_ofList]
  exact lf_notMem_of_mem_linesOf hchars

theorem lines_intercalate {rows : List String}
    (h : ∀ row ∈ rows,
      '\n' ∉ row.toList ∧ row.toList.getLast? ≠ some '\r' ∧ row ≠ "") :
    lines ("\n".intercalate rows) = rows := by
  have hchars :
      linesOf '\n' '\r' (['\n'].intercalate (rows.map String.toList)) = rows.map String.toList := by
    refine linesOf_intercalate fun line hline ↦ ?_
    obtain ⟨row, hrow, rfl⟩ := List.mem_map.mp hline
    obtain ⟨hlf, hcr, hne⟩ := h row hrow
    exact ⟨hlf, hcr, mt String.toList_eq_nil_iff.mp hne⟩
  rw [lines, String.toList_intercalate]
  change (linesOf '\n' '\r' (['\n'].intercalate _)).map _ = _
  rw [hchars, List.map_map]
  simp

/-! ## Trimming -/

/-- Nothing is trimmed where both ends are visible. -/
theorem trimChars_of_ends {c d : Char} (hc : isSpace c = false) (hd : isSpace d = false)
    (cs : List Char) :
    trimChars (c :: (cs ++ [d])) = c :: (cs ++ [d]) := by
  simp [trimChars, hc, hd]

/-! ## Bytes of texts -/

theorem encode_append (s t : String) : encode (s ++ t) = encode s ++ encode t := by
  simp [encode, String.toByteArray_append]

theorem encode_join (ss : List String) : encode (String.join ss) = ss.flatMap encode := by
  induction ss with
  | nil => rfl
  | cons s ss ih => rw [String.join_cons, encode_append, ih, List.flatMap_cons]

theorem encode_eq_flatMap (s : String) : encode s = s.toList.flatMap String.utf8EncodeChar := by
  have hbytes : s.toByteArray = (s.toList.flatMap String.utf8EncodeChar).toByteArray := by
    conv => lhs; rw [← String.ofList_toList (s := s)]
    rw [String.toByteArray_ofList]
    rfl
  rw [encode, hbytes]
  simp

/-- A byte below 128 spells the character with its number. -/
theorem mem_utf8EncodeChar_iff {b : UInt8} (hb : b < 128) (c : Char) :
    b ∈ String.utf8EncodeChar c ↔ c.toNat = b.toNat := by
  have hlt : b.toNat < 128 := by simpa [UInt8.lt_iff_toNat_lt] using hb
  have hval : c.toNat = c.val.toNat := rfl
  unfold String.utf8EncodeChar
  -- only the first form has a byte below 128: every byte of the others has its highest bit set
  simp only
  split
  · rw [List.mem_singleton, ← UInt8.toNat_inj, UInt8.toNat_ofNat']
    omega
  · have hbig : ∀ n, 128 ≤ n → n < 256 → b ≠ UInt8.ofNat n := by
      intro n hn hn' he
      have := congrArg UInt8.toNat he
      rw [UInt8.toNat_ofNat', Nat.mod_eq_of_lt hn'] at this
      omega
    have hne : ¬ c.toNat = b.toNat := by omega
    rw [iff_false_right hne]
    split
    · simp only [List.mem_cons, List.not_mem_nil, or_false, not_or]
      exact ⟨hbig _ (by omega) (by omega), hbig _ (by omega) (by omega)⟩
    split
    · simp only [List.mem_cons, List.not_mem_nil, or_false, not_or]
      exact ⟨hbig _ (by omega) (by omega), hbig _ (by omega) (by omega),
        hbig _ (by omega) (by omega)⟩
    · simp only [List.mem_cons, List.not_mem_nil, or_false, not_or]
      exact ⟨hbig _ (by omega) (by omega), hbig _ (by omega) (by omega),
        hbig _ (by omega) (by omega), hbig _ (by omega) (by omega)⟩

/-- An ASCII byte is found where its character is, and nowhere else. -/
theorem mem_encode_iff {b : UInt8} (hb : b < 128) (s : String) :
    b ∈ encode s ↔ Char.ofNat b.toNat ∈ s.toList := by
  rw [encode_eq_flatMap, List.mem_flatMap]
  constructor
  · rintro ⟨c, hc, hbc⟩
    rw [← (mem_utf8EncodeChar_iff hb c).mp hbc, Char.ofNat_toNat]
    exact hc
  · intro hc
    refine ⟨_, hc, (mem_utf8EncodeChar_iff hb _).mpr ?_⟩
    have hlt : b.toNat < 128 := by simpa [UInt8.lt_iff_toNat_lt] using hb
    have hvalid : b.toNat.isValidChar := Or.inl (by omega)
    rw [Char.ofNat, dif_pos hvalid]
    rfl

end AgentConsole.Text
