import AgentConsole.Terminal.Paint
import AgentConsole.Text.Excerpt
import AgentConsole.Text.Lines

/-!
# Panels

A panel frames a text.  The frame is as wide as the widest line or label needs; labels stand
centered in its top and bottom border, with the odd column after them.
-/

namespace AgentConsole

/-- A framed text with optional labels above and below. -/
structure Panel where
  title : Option String
  subtitle : Option String
  body : String

namespace Panel

/-- A panel without labels. -/
def plain (body : String) : Panel := ⟨none, none, body⟩

/-- The panel that greets the user. -/
def welcome (text : String) : Panel :=
  ⟨some "Welcome to Strands", some "strands", text⟩

/-- The panel that says goodbye. -/
def goodbye : Panel := plain "Thank you for using Strands!"

/-- The columns that a label needs, with a blank on each side. -/
def labelWidth : Option String → Nat
  | none => 0
  | some label => Text.size label + 2

/-- The columns between the left and the right border. -/
def width (p : Panel) : Nat :=
  (((Text.lines p.body).map Text.size) ++ [labelWidth p.title, labelWidth p.subtitle]).foldl max 0
    + 2

/-- Columns of a horizontal border. -/
def rule (n : Nat) : String := String.ofList (List.replicate n '─')

/-- A border of the given width, with its corners and an optional label in the middle. -/
def border (left right : String) (label : Option String) (width : Nat) : String :=
  match label with
  | none => left ++ rule width ++ right
  | some label =>
    let remaining := width - labelWidth (some label)
    let before := remaining / 2
    left ++ rule before ++ (" " ++ label ++ " ") ++ rule (remaining - before) ++ right

/-- A line between its borders. -/
def row (on : Bool) (width : Nat) (line : String) : String :=
  let side := Paint.apply on .blue "│"
  side ++ " " ++ line ++ String.ofList (List.replicate (width - 2 - Text.size line) ' ') ++
    " " ++ side

/-- The rows of a panel, with a colored frame if so asked. -/
def rows (on : Bool) (p : Panel) : List String :=
  Paint.apply on .blue (border "╭" "╮" p.title p.width) ::
    ((Text.lines p.body).map (row on p.width) ++
      [Paint.apply on .blue (border "╰" "╯" p.subtitle p.width)])

/-- A panel as text. -/
def render (on : Bool) (p : Panel) : String :=
  String.intercalate "\n" (p.rows on)

end Panel

end AgentConsole
