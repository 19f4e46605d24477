import AgentConsole.Json.Numeral

/-!
# Tokens of JSON texts

A text is read character by character.  Between tokens only space, tab, line feed and carriage
return may stand; a word, that is a numeral or one of the three names, ends where no further
character of a word follows; in a string, escapes become characters, and the two halves of a
surrogate pair become one.
-/

namespace AgentConsole.Json

/-- Tokens.  A string that is no text because it holds half of a surrogate pair has no content. -/
inductive Token where
  | openArray
  | closeArray
  | openObject
  | closeObject
  | colon
  | comma
  | string (content : Option String)
  | leaf (value : Json)

/-- The content of a string as far as it has been read. -/
structure Content where
  /-- The characters read, last first. -/
  chars : List Char
  /-- The first half of a surrogate pair, directly before. -/
  high : Option Nat
  /-- Whether some half of a pair has stood alone. -/
  broken : Bool

namespace Content

/-- Nothing read. -/
def empty : Content := ⟨[], none, false⟩

/-- Adds a character. -/
def push (c : Char) (s : Content) : Content :=
  { chars := c :: s.chars, high := none, broken := s.broken || s.high.isSome }

/-- Adds the code unit of a numeric escape. -/
def pushUnit (unit : Nat) (s : Content) : Content :=
  if 0xD800 ≤ unit && unit < 0xDC00 then
    { s with high := some unit, broken := s.broken || s.high.isSome }
  else if 0xDC00 ≤ unit && unit < 0xE000 then
    match s.high with
    | some high =>
      { s with
        chars := Char.ofNat (0x10000 + (high - 0xD800) * 0x400 + (unit - 0xDC00)) :: s.chars
        high := none }
    | none => { s with broken := true }
  else s.push (Char.ofNat unit)

/-- The text read, if every half of a pair has met the other. -/
def text? (s : Content) : Option String :=
  if s.broken || s.high.isSome then none else some (String.ofList s.chars.reverse)

end Content

/-- Where the reading of tokens stands. -/
inductive Position where
  /-- Between tokens. -/
  | between
  /-- In a word, whose characters so far come last first. -/
  | word (chars : List Char)
  /-- In a string. -/
  | inString (content : Content)
  /-- After a backslash in a string. -/
  | escape (content : Content)
  /-- In a numeric escape: the number of its digits to come and the value of those before. -/
  | unit (content : Content) (left : Nat) (value : Nat)

/-- The characters of numerals and names. -/
def isWordChar (c : Char) : Bool :=
  c.isAlphanum || c == '+' || c == '-' || c == '.'

/-- The blanks of JSON texts. -/
def isBlank (c : Char) : Bool :=
  c == ' ' || c == '\t' || c == '\n' || c == '\r'

/-- The value of a word. -/
def word? (chars : List Char) : Option Json :=
  if chars = ['n', 'u', 'l', 'l'] then some .null
  else if chars = ['t', 'r', 'u', 'e'] then some (.bool true)
  else if chars = ['f', 'a', 'l', 's', 'e'] then some (.bool false)
  else (Numeral.read? chars).map fun n ↦ (n.toNumber?.map Json.number).getD .void

/-- The character that a backslash and a letter stand for. -/
def escaped? (c : Char) : Option Char :=
  match c with
  | '"' => some '"'
  | '\\' => some '\\'
  | '/' => some '/'
  | 'b' => some '\x08'
  | 'f' => some '\x0c'
  | 'n' => some '\n'
  | 'r' => some '\r'
  | 't' => some '\t'
  | _ => none

/-- The value of a hexadecimal digit. -/
def hexValue? (c : Char) : Option Nat :=
  if c.isDigit then some (c.toNat - '0'.toNat)
  else if 'a' ≤ c && c ≤ 'f' then some (c.toNat - 'a'.toNat + 10)
  else if 'A' ≤ c && c ≤ 'F' then some (c.toNat - 'A'.toNat + 10)
  else none

/-- The token of a single character. -/
def mark? (c : Char) : Option Token :=
  match c with
  | '[' => some .openArray
  | ']' => some .closeArray
  | '{' => some .openObject
  | '}' => some .closeObject
  | ':' => some .colon
  | ',' => some .comma
  | _ => none

/-- Reads a character between tokens; the tokens read so far come last first. -/
def stepBetween (tokens : List Token) (c : Char) : Option (Position × List Token) :=
  if isBlank c then some (.between, tokens)
  else if c = '"' then some (.inString .empty, tokens)
  else if isWordChar c then some (.word [c], tokens)
  else (mark? c).map fun t ↦ (.between, t :: tokens)

/-- Reads a character. -/
def stepChar (p : Position) (tokens : List Token) (c : Char) : Option (Position × List Token) :=
  match p with
  | .between => stepBetween tokens c
  | .word chars =>
    if isWordChar c then some (.word (c :: chars), tokens)
    else (word? chars.reverse).bind fun j ↦ stepBetween (.leaf j :: tokens) c
  | .inString content =>
    if c = '"' then some (.between, .string content.text? :: tokens)
    else if c = '\\' then some (.escape content, tokens)
    else if c.toNat < 0x20 then none
    else some (.inString (content.push c), tokens)
  | .escape content =>
    if c = 'u' then some (.unit content 4 0, tokens)
    else (escaped? c).map fun e ↦ (.inString (content.push e), tokens)
  | .unit content left value =>
    (hexValue? c).map fun v ↦
      let value := 16 * value + v
      if left ≤ 1 then (.inString (content.pushUnit value), tokens)
      else (.unit content (left - 1) value, tokens)

/-- Reads the rest of a text into tokens. -/
def tokensFrom (p : Position) (tokens : List Token) : List Char → Option (List Token)
  | [] =>
    match p with
    | .between => some tokens.reverse
    | .word chars => (word? chars.reverse).map fun j ↦ (Token.leaf j :: tokens).reverse
    | _ => none
  | c :: cs => (stepChar p tokens c).bind fun r ↦ tokensFrom r.1 r.2 cs

/-- The tokens of a text, if it consists of tokens. -/
def tokens? (cs : List Char) : Option (List Token) :=
  tokensFrom .between [] cs

end AgentConsole.Json
