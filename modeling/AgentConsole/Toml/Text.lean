/-!
# Blanks and strings in TOML

The lexical parts of a document in which any text can stand: blanks, comments, and the four kinds of
strings.  Each reader takes the characters to come and gives what it has read and the rest.
-/

namespace AgentConsole.Toml

/-- A reader: what it reads at the start of a text, and the rest. -/
abbrev Reader (α : Type) := List Char → Option (α × List Char)

/-! ## Blanks -/

/-- Blanks within a line. -/
def isBlank (c : Char) : Bool :=
  c == ' ' || c == '\t'

/-- Characters that may stand in a comment, and in strings unless they mean something there. -/
def isPlain (c : Char) : Bool :=
  c == '\t' || (' ' ≤ c && c ≤ '~') || 0x80 ≤ c.toNat

/-- What follows blanks within a line. -/
def skipBlanks (cs : List Char) : List Char :=
  cs.dropWhile isBlank

/-- What follows the end of a line, if there is one. -/
def newline? : List Char → Option (List Char)
  | '\n' :: rest => some rest
  | '\r' :: '\n' :: rest => some rest
  | _ => none

/-- What follows a comment, if there is one. -/
def skipComment : List Char → List Char
  | '#' :: rest => rest.dropWhile isPlain
  | cs => cs

/-- What follows the end of an expression: blanks, a comment, and the end of the line or text. -/
def endLine? (cs : List Char) : Option (List Char) :=
  match skipComment (skipBlanks cs) with
  | [] => some []
  | rest => newline? rest

/-- What follows blanks, ends of lines and comments; `inComment` says whether a comment is open. -/
def skipLines? (inComment : Bool) : List Char → Option (List Char)
  | '\n' :: rest => skipLines? false rest
  | '\r' :: '\n' :: rest => skipLines? false rest
  | c :: rest =>
    if inComment then if isPlain c then skipLines? true rest else none
    else if isBlank c then skipLines? false rest
    else if c = '#' then skipLines? true rest
    else some (c :: rest)
  | [] => if inComment then none else some []

/-! ## Strings -/

/-- The value of a hexadecimal digit. -/
def hexValue? (c : Char) : Option Nat :=
  if c.isDigit then some (c.toNat - '0'.toNat)
  else if 'a' ≤ c && c ≤ 'f' then some (c.toNat - 'a'.toNat + 10)
  else if 'A' ≤ c && c ≤ 'F' then some (c.toNat - 'A'.toNat + 10)
  else none

/-- The character that a letter behind a backslash stands for. -/
def escaped? (c : Char) : Option Char :=
  match c with
  | 'b' => some '\x08'
  | 't' => some '\t'
  | 'n' => some '\n'
  | 'f' => some '\x0c'
  | 'r' => some '\r'
  | '"' => some '"'
  | '\\' => some '\\'
  | _ => none

/-- The character with a code, if it has one. -/
def charOf? (code : Nat) : Option Char :=
  if code.isValidChar then some (Char.ofNat code) else none

/-- Where the reading of a string stands. -/
inductive StringMode where
  | plain
  /-- After a backslash. -/
  | escape
  /-- In a numeric escape: the digits to come and the value of those before. -/
  | code (left : Nat) (value : Nat)
  /-- After a backslash and blanks, where only the end of the line may follow. -/
  | lineEnd
  /-- Behind such an end of the line, where blanks and further ends are passed over. -/
  | margin

/-- The mode after a backslash and a character, and the characters read, last first. -/
def stepEscape (multiline : Bool) (c : Char) (chars : List Char) :
    Option (StringMode × List Char) :=
  if c = 'u' then some (.code 4 0, chars)
  else if c = 'U' then some (.code 8 0, chars)
  else if multiline && isBlank c then some (.lineEnd, chars)
  else (escaped? c).map fun e ↦ (.plain, e :: chars)

/-- The mode after a digit of a numeric escape. -/
def stepCode (left value : Nat) (c : Char) (chars : List Char) : Option (StringMode × List Char) :=
  (hexValue? c).bind fun v ↦
    let value := 16 * value + v
    if left ≤ 1 then (charOf? value).map fun e ↦ (.plain, e :: chars)
    else some (.code (left - 1) value, chars)

/-- The rest of a string in double quotes on one line. -/
def basicString (mode : StringMode) (chars : List Char) : Reader String
  | [] => none
  | c :: rest =>
    match mode with
    | .escape => (stepEscape false c chars).bind fun r ↦ basicString r.1 r.2 rest
    | .code left value => (stepCode left value c chars).bind fun r ↦ basicString r.1 r.2 rest
    | _ =>
      if c = '"' then some (String.ofList chars.reverse, rest)
      else if c = '\\' then basicString .escape chars rest
      else if isPlain c then basicString .plain (c :: chars) rest
      else none

/-- The rest of a string in single quotes on one line. -/
def literalString (chars : List Char) : Reader String
  | [] => none
  | c :: rest =>
    if c = '\'' then some (String.ofList chars.reverse, rest)
    else if isPlain c then literalString (c :: chars) rest
    else none

/-- The rest of a string in triple double quotes.  Up to two quotes may stand before its end. -/
def basicText (mode : StringMode) (chars : List Char) : Reader String
  | [] => none
  | '\r' :: '\n' :: rest =>
    match mode with
    | .plain => basicText .plain ('\n' :: chars) rest
    | .escape | .lineEnd | .margin => basicText .margin chars rest
    | .code _ _ => none
  | '\n' :: rest =>
    match mode with
    | .plain => basicText .plain ('\n' :: chars) rest
    | .escape | .lineEnd | .margin => basicText .margin chars rest
    | .code _ _ => none
  | c :: rest =>
    match mode with
    | .escape => (stepEscape true c chars).bind fun r ↦ basicText r.1 r.2 rest
    | .code left value => (stepCode left value c chars).bind fun r ↦ basicText r.1 r.2 rest
    | .lineEnd => if isBlank c then basicText .lineEnd chars rest else none
    | .margin | .plain =>
      let isMargin := match mode with
        | .margin => isBlank c
        | _ => false
      if isMargin then basicText .margin chars rest
      else if c = '\\' then basicText .escape chars rest
      else if c = '"' then
        match rest with
        | '"' :: '"' :: '"' :: '"' :: rest =>
          some (String.ofList ('"' :: '"' :: chars).reverse, rest)
        | '"' :: '"' :: '"' :: rest => some (String.ofList ('"' :: chars).reverse, rest)
        | '"' :: '"' :: rest => some (String.ofList chars.reverse, rest)
        | _ => basicText .plain ('"' :: chars) rest
      else if isPlain c then basicText .plain (c :: chars) rest
      else none

/-- The rest of a string in triple single quotes. -/
def literalText (chars : List Char) : Reader String
  | [] => none
  | '\r' :: '\n' :: rest => literalText ('\n' :: chars) rest
  | '\n' :: rest => literalText ('\n' :: chars) rest
  | c :: rest =>
    if c = '\'' then
      match rest with
      | '\'' :: '\'' :: '\'' :: '\'' :: rest =>
        some (String.ofList ('\'' :: '\'' :: chars).reverse, rest)
      | '\'' :: '\'' :: '\'' :: rest => some (String.ofList ('\'' :: chars).reverse, rest)
      | '\'' :: '\'' :: rest => some (String.ofList chars.reverse, rest)
      | _ => literalText ('\'' :: chars) rest
    else if isPlain c then literalText (c :: chars) rest
    else none

/-- What follows the opening of a string of several lines; the end of the line there is no part of
it. -/
def skipFirstLine (cs : List Char) : List Char :=
  (newline? cs).getD cs

/-- A string of any kind. -/
def string? : Reader String
  | '"' :: '"' :: '"' :: rest => basicText .plain [] (skipFirstLine rest)
  | '"' :: rest => basicString .plain [] rest
  | '\'' :: '\'' :: '\'' :: rest => literalText [] (skipFirstLine rest)
  | '\'' :: rest => literalString [] rest
  | _ => none

/-! ## Keys -/

/-- The characters of keys without quotes. -/
def isKeyChar (c : Char) : Bool :=
  c.isAlphanum || c == '-' || c == '_'

/-- A single key. -/
def simpleKey? : Reader String
  | '"' :: rest => basicString .plain [] rest
  | '\'' :: rest => literalString [] rest
  | cs =>
    let name := cs.takeWhile isKeyChar
    if name.isEmpty then none else some (String.ofList name, cs.dropWhile isKeyChar)

/-- A key with the blanks around it. -/
def paddedKey? (cs : List Char) : Option (String × List Char) :=
  (simpleKey? (skipBlanks cs)).map fun r ↦ (r.1, skipBlanks r.2)

/-- The greatest number of keys joined by dots. -/
def keyLimit : Nat := 79

/-- At most so many keys joined by dots. -/
def keysUpTo : Nat → Reader (List String)
  | 0, _ => none
  | n + 1, cs =>
    match paddedKey? cs with
    | some (key, '.' :: rest) => (keysUpTo n rest).map fun r ↦ (key :: r.1, r.2)
    | some (key, rest) => some ([key], rest)
    | none => none

/-- One or more keys joined by dots. -/
def keys? : Reader (List String) :=
  keysUpTo keyLimit

end AgentConsole.Toml
