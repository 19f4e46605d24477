import AgentConsole.Proofs.Text.Lines
import AgentConsole.Terminal.Panel
import Mathlib.Data.List.Fold
import Mathlib.Data.List.Forall2
import Mathlib.Data.List.MinMax

/-!
# Panels are rectangles

The width of a panel is a maximum over texts with different margins, and it is taken apart again in
two ways: a line of the body is filled up to it with blanks, and a label with two rules around it.
Both are subtractions, so it has to be known that no line and no label needs more columns than there
are (`Panel.size_le_width`, `Panel.labelWidth_title_le`).  Once it is, every row has the columns of
the frame, and the parts of each row are what they should be.

That the rows are also the lines of the rendered text takes labels without line feeds.  The body may
be any text: its lines have none, and no row ends in a carriage return, since there is a border
behind it.

* `Panel.size_row`, `Panel.size_border` : the rows have the same size.
* `Panel.render_rectangle` : the rendered text.
-/

namespace AgentConsole

namespace Text

@[simp] theorem size_append (s t : String) : size (s ++ t) = size s + size t := by
  simp [size]

@[simp] theorem size_replicate (n : Nat) (c : Char) :
    size (String.ofList (List.replicate n c)) = n := by
  simp [size]

end Text

namespace Panel

/-! ## Widths -/

/-- The size of the longest line of the body. -/
def longest (p : Panel) : Nat :=
  ((Text.lines p.body).map Text.size).foldr max 0

/-- The columns that the lines and the labels need. -/
def columns (p : Panel) : Nat :=
  max p.longest (max (labelWidth p.title) (labelWidth p.subtitle))

variable {p : Panel}

theorem width_eq (p : Panel) : p.width = p.columns + 2 := by
  rw [width, columns, longest, List.foldl_append, List.foldl_cons, List.foldl_cons, List.foldl_nil,
    List.foldl_eq_foldr, max_assoc]

theorem size_le_width {line : String} (h : line ∈ Text.lines p.body) :
    2 + Text.size line ≤ p.width := by
  have hlongest : Text.size line ≤ p.longest :=
    List.le_max_of_le' 0 (List.mem_map_of_mem h) le_rfl
  have hcolumns : p.longest ≤ p.columns := le_max_left ..
  rw [width_eq]
  omega

theorem labelWidth_title_le (p : Panel) : labelWidth p.title ≤ p.width := by
  rw [width_eq, columns]
  omega

theorem labelWidth_subtitle_le (p : Panel) : labelWidth p.subtitle ≤ p.width := by
  rw [width_eq, columns]
  omega

/-! ## Rows -/

/-- A row with a line of the body: a blank on each side, and more behind it up to the border. -/
def Holds (line row : String) : Prop :=
  ∃ n, row = "│ " ++ line ++ String.ofList (List.replicate n ' ') ++ " │"

/-- A row with a label in the middle of a rule, as far as there is a middle, and a blank on each
side of it.  Without a label the rule is unbroken. -/
def Labels (left right : String) : Option String → String → Prop
  | none, row => ∃ n, row = left ++ rule n ++ right
  | some label, row => ∃ before after, (after = before ∨ after = before + 1) ∧
      row = left ++ rule before ++ " " ++ label ++ " " ++ rule after ++ right

theorem holds_row (width : Nat) (line : String) : Holds line (row false width line) :=
  ⟨width - 2 - Text.size line, String.toList_injective (by simp [row])⟩

theorem size_row {width : Nat} {line : String} (h : 2 + Text.size line ≤ width) :
    Text.size (row false width line) = width + 2 := by
  have hside : Text.size "│" = 1 := by decide
  have hblank : Text.size " " = 1 := by decide
  simp only [row, Paint.apply_off, Text.size_append, Text.size_replicate, hside, hblank]
  omega

@[simp] theorem size_rule (n : Nat) : Text.size (rule n) = n := Text.size_replicate n _

theorem labels_border (left right : String) (label : Option String) (width : Nat) :
    Labels left right label (border left right label width) := by
  cases label with
  | none => exact ⟨width, rfl⟩
  | some label =>
    let remaining := width - labelWidth (some label)
    refine ⟨remaining / 2, remaining - remaining / 2, by omega, ?_⟩
    rw [border, ← String.append_assoc, ← String.append_assoc]

theorem size_border {left right : String} (hleft : Text.size left = 1)
    (hright : Text.size right = 1) {label : Option String} {width : Nat}
    (h : labelWidth label ≤ width) :
    Text.size (border left right label width) = width + 2 := by
  have hblank : Text.size " " = 1 := by decide
  cases label with
  | none =>
    simp only [border, Text.size_append, size_rule, hleft, hright]
    omega
  | some label =>
    rw [labelWidth] at h
    simp only [border, labelWidth, Text.size_append, size_rule, hleft, hright, hblank]
    omega

/-! ## Lines of the rendered text -/

/-- What stands on a line of its own: it has no line feed and ends with a border. -/
structure Single (edge : String) (row : String) : Prop where
  lf_notMem : '\n' ∉ row.toList
  ends : ∃ front, row = front ++ edge

theorem single_row {line : String} (h : '\n' ∉ line.toList) (width : Nat) :
    Single "│" (row false width line) :=
  ⟨by simp [row, h], _, rfl⟩

theorem single_border {left right : String} (hleft : '\n' ∉ left.toList)
    (hright : '\n' ∉ right.toList) {label : Option String}
    (hlabel : ∀ l ∈ label, '\n' ∉ l.toList) (width : Nat) :
    Single right (border left right label width) := by
  cases label with
  | none => exact ⟨by simp [border, rule, hleft, hright], _, rfl⟩
  | some label =>
    have hlabel := hlabel label rfl
    exact ⟨by simp [border, rule, hleft, hright, hlabel], _, rfl⟩

/-- A line with something behind it that is neither a carriage return nor nothing. -/
theorem Single.isLine {edge row : String} (h : Single edge row) {c : Char}
    (hedge : edge.toList = [c]) (hc : c ≠ '\r') :
    '\n' ∉ row.toList ∧ row.toList.getLast? ≠ some '\r' ∧ row ≠ "" := by
  obtain ⟨front, rfl⟩ := h.ends
  refine ⟨h.lf_notMem, by simp [hedge, hc], fun hempty ↦ ?_⟩
  have hchars := congrArg String.toList hempty
  simp [hedge] at hchars

theorem lines_render (htitle : ∀ t ∈ p.title, '\n' ∉ t.toList)
    (hsubtitle : ∀ t ∈ p.subtitle, '\n' ∉ t.toList) :
    Text.lines (p.render false) = p.rows false := by
  refine Text.lines_intercalate fun r hr ↦ ?_
  rw [rows, Paint.apply_off, Paint.apply_off, List.mem_cons, List.mem_append, List.mem_singleton]
    at hr
  rcases hr with rfl | hr | rfl
  · exact (single_border (by decide) (by decide) htitle _).isLine rfl (by decide)
  · obtain ⟨line, hline, rfl⟩ := List.mem_map.mp hr
    exact (single_row (Text.lf_notMem_of_mem_lines hline) _).isLine rfl (by decide)
  · exact (single_border (by decide) (by decide) hsubtitle _).isLine rfl (by decide)

theorem size_of_mem_rows {r : String} (h : r ∈ p.rows false) : Text.size r = 4 + p.columns := by
  rw [rows, Paint.apply_off, Paint.apply_off, List.mem_cons, List.mem_append, List.mem_singleton]
    at h
  have hwidth : p.width + 2 = 4 + p.columns := by
    rw [width_eq]
    omega
  rw [← hwidth]
  rcases h with rfl | h | rfl
  · exact size_border (by decide) (by decide) p.labelWidth_title_le
  · obtain ⟨line, hline, rfl⟩ := List.mem_map.mp h
    exact size_row (size_le_width hline)
  · exact size_border (by decide) (by decide) p.labelWidth_subtitle_le

/-- A panel without line feeds in its labels.  Nothing is wider than the frame, so that what is
missing can be filled up, and the rendered text is a rectangle.  It has one row for each line of the
body and two more, and each has four columns besides those of the widest line, or of the widest
label with its two blanks.  Each line of the body stands in its row, and each label in its
border. -/
theorem render_rectangle (htitle : ∀ t ∈ p.title, '\n' ∉ t.toList)
    (hsubtitle : ∀ t ∈ p.subtitle, '\n' ∉ t.toList) :
    let body := Text.lines p.body
    let columns := max p.longest (max (labelWidth p.title) (labelWidth p.subtitle))
    (∀ line ∈ body, 2 + Text.size line ≤ p.width) ∧
      labelWidth p.title ≤ p.width ∧ labelWidth p.subtitle ≤ p.width ∧
      ∃ top held bottom, p.render false = "\n".intercalate (top :: (held ++ [bottom])) ∧
        Text.lines (p.render false) = top :: (held ++ [bottom]) ∧
        held.length = body.length ∧
        (∀ row ∈ Text.lines (p.render false), Text.size row = 4 + columns) ∧
        Labels "╭" "╮" p.title top ∧ List.Forall₂ Holds body held ∧
          Labels "╰" "╯" p.subtitle bottom := by
  intro body columns
  have hlines := lines_render htitle hsubtitle
  refine ⟨fun _ ↦ size_le_width, p.labelWidth_title_le, p.labelWidth_subtitle_le,
    border "╭" "╮" p.title p.width, body.map (row false p.width),
    border "╰" "╯" p.subtitle p.width,
    rfl, hlines, List.length_map _, ?_, labels_border .., ?_, labels_border ..⟩
  · intro r hr
    exact size_of_mem_rows (hlines ▸ hr)
  · exact List.forall₂_map_right_iff.mpr (List.forall₂_same.mpr fun line _ ↦
      holds_row p.width line)

/-- The title is wider than the body, which has an empty line. -/
theorem render_rectangle_of_wide_title :
    let p : Panel := ⟨some "日本語", none, "é\r\n\r\n"⟩
    ∃ top held bottom, Text.lines (p.render false) = top :: (held ++ [bottom]) ∧
      held.length = 2 ∧
      (∀ row ∈ Text.lines (p.render false), Text.size row = 9) ∧
      Labels "╭" "╮" (some "日本語") top ∧ List.Forall₂ Holds ["é", ""] held := by
  intro p
  have htitle : ∀ t ∈ p.title, '\n' ∉ t.toList := by
    rintro t ⟨⟩
    decide
  obtain ⟨-, -, -, top, held, bottom, -, hlines, hlength, hsize, htop, hheld, -⟩ :=
    render_rectangle htitle (p := p) nofun
  have hbody : Text.lines p.body = ["é", ""] := by decide
  have hcolumns : 4 + max p.longest (max (labelWidth p.title) (labelWidth p.subtitle)) = 9 := by
    decide
  rw [hbody] at hlength hheld
  rw [hcolumns] at hsize
  exact ⟨top, held, bottom, hlines, hlength, hsize, htop, hheld⟩

/-- What is left over of the rule goes behind the label. -/
example : (⟨some "日本語", some "ü", "é\r\n\r\n"⟩ : Panel).rows false =
    ["╭─ 日本語 ─╮", "│ é     │", "│       │", "╰── ü ──╯"] := by
  decide

end Panel

end AgentConsole
