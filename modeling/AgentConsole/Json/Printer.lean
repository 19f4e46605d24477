import AgentConsole.Json.Basic

/-!
# Writing JSON texts

Values are written without blanks.  In strings only the quote, the backslash and the characters
below the space are escaped, the latter by a letter where there is one.
-/

namespace AgentConsole.Json

/-- A hexadecimal digit. -/
def hexDigit (n : Nat) : Char :=
  if n < 10 then Char.ofNat ('0'.toNat + n) else Char.ofNat ('a'.toNat + (n - 10))

/-- A character as it is written in a string. -/
def escape (c : Char) : List Char :=
  match c with
  | '"' => ['\\', '"']
  | '\\' => ['\\', '\\']
  | '\x08' => ['\\', 'b']
  | '\x0c' => ['\\', 'f']
  | '\n' => ['\\', 'n']
  | '\r' => ['\\', 'r']
  | '\t' => ['\\', 't']
  | c =>
    if c.toNat < 0x20 then ['\\', 'u', '0', '0', hexDigit (c.toNat / 16), hexDigit (c.toNat % 16)]
    else [c]

/-- A string in quotes. -/
def quote (s : String) : List Char :=
  '"' :: (s.toList.flatMap escape ++ ['"'])

/-- An integer in decimal. -/
def intChars (n : Int) : List Char :=
  (if n < 0 then ['-'] else []) ++ Nat.toDigits 10 n.natAbs

/-- A number; one that is not finite has no numeral. -/
def numberChars : Number → List Char
  | .int n => intChars n
  | .float x => if x.isFinite then (writeFloat .data x).toList else ['n', 'u', 'l', 'l']

mutual

/-- The text of a value. -/
def chars : Json → List Char
  | .null => ['n', 'u', 'l', 'l']
  | .bool true => ['t', 'r', 'u', 'e']
  | .bool false => ['f', 'a', 'l', 's', 'e']
  | .number n => numberChars n
  | .string s => quote s
  | .array [] => ['[', ']']
  | .array (j :: rest) => '[' :: (chars j ++ itemChars rest)
  | .object [] => ['{', '}']
  | .object ((key, j) :: rest) => '{' :: (quote key ++ ':' :: (chars j ++ memberChars rest))
  | .void => ['n', 'u', 'l', 'l']

/-- The items after the first, and the end of their array. -/
def itemChars : List Json → List Char
  | [] => [']']
  | j :: rest => ',' :: (chars j ++ itemChars rest)

/-- The members after the first, and the end of their object. -/
def memberChars : Members → List Char
  | [] => ['}']
  | (key, j) :: rest => ',' :: (quote key ++ ':' :: (chars j ++ memberChars rest))

end

/-- The text of a value. -/
def text (j : Json) : String :=
  String.ofList (chars j)

end AgentConsole.Json
