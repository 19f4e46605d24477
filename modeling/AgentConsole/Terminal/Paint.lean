/-!
# Colored text

A terminal colors the text between an opening escape sequence and a reset.  Where the text itself
holds a reset the opening is put again behind it, so that all of the text is colored.
-/

namespace AgentConsole

/-- The manners in which text is set off. -/
inductive Paint where
  | red
  | boldRed
  | green
  | blue
  | cyan
  | dim
  deriving DecidableEq, Repr

namespace Paint

/-- The parameters of a manner. -/
def code : Paint → String
  | .red => "31"
  | .boldRed => "1;31"
  | .green => "32"
  | .blue => "34"
  | .cyan => "36"
  | .dim => "2"

/-- The character that begins an escape sequence. -/
def esc : Char := '\x1b'

/-- The sequence that ends all coloring. -/
def reset : List Char := [esc, '[', '0', 'm']

/-- The sequence that begins a manner. -/
def opening (p : Paint) : List Char :=
  esc :: '[' :: (p.code.toList ++ ['m'])

/-- A text with something put behind each reset in it. -/
def reopen (opening : List Char) : List Char → List Char
  | '\x1b' :: '[' :: '0' :: 'm' :: rest => reset ++ (opening ++ reopen opening rest)
  | c :: rest => c :: reopen opening rest
  | [] => []

/-- A text set off, if sequences are to be written at all. -/
def apply (on : Bool) (p : Paint) (text : String) : String :=
  if on then
    String.ofList (p.opening ++ (reopen p.opening text.toList ++ reset))
  else text

@[simp] theorem apply_off (p : Paint) (text : String) : apply false p text = text := rfl

end Paint

end AgentConsole
