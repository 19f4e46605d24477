import AgentConsole.Toml.Basic
import AgentConsole.Toml.Text

/-!
# Numbers and dates in TOML

Integers of 64 bits in four bases, numbers with a fraction or an exponent, dates and times.  A
single underscore may stand between digits, and a decimal number has no leading zeros.
-/

namespace AgentConsole.Toml

/-! ## Digits -/

/-- Digits with underscores between them, after the first digit. -/
def digitsAfter (isDigit : Char → Bool) : List Char → List Char × List Char
  | '_' :: c :: rest =>
    if isDigit c then
      let (digits, rest) := digitsAfter isDigit rest
      (c :: digits, rest)
    else ([], '_' :: c :: rest)
  | c :: rest =>
    if isDigit c then
      let (digits, rest) := digitsAfter isDigit rest
      (c :: digits, rest)
    else ([], c :: rest)
  | [] => ([], [])

/-- One or more digits with underscores between them. -/
def digits? (isDigit : Char → Bool) : Reader (List Char)
  | c :: rest =>
    if isDigit c then
      let (digits, rest) := digitsAfter isDigit rest
      some (c :: digits, rest)
    else none
  | [] => none

/-- The number that digits of a base stand for. -/
def numberOf (base : Nat) (digits : List Char) : Nat :=
  digits.foldl (fun n c ↦ base * n + (hexValue? c).getD 0) 0

/-- A sign: whether it is a minus. -/
def sign : List Char → Bool × List Char
  | '-' :: rest => (true, rest)
  | '+' :: rest => (false, rest)
  | cs => (false, cs)

/-- The digits of a decimal number: a zero, or digits that do not start with one. -/
def decimal? : Reader (List Char)
  | '0' :: rest => some (['0'], rest)
  | cs => digits? Char.isDigit cs

/-! ## Integers -/

/-- A natural number in another base, behind its prefix. -/
def based (base : Nat) (isDigit : Char → Bool) (cs : List Char) : Option (Toml × List Char) :=
  (digits? isDigit cs).bind fun r ↦
    let n := numberOf base r.1
    if n < Nat.pow 2 63 then some (.integer n, r.2) else none

/-- An integer. -/
def integer? : Reader Toml
  | '0' :: 'x' :: rest => based 16 (fun c ↦ (hexValue? c).isSome) rest
  | '0' :: 'o' :: rest => based 8 (fun c ↦ '0' ≤ c && c ≤ '7') rest
  | '0' :: 'b' :: rest => based 2 (fun c ↦ c == '0' || c == '1') rest
  | cs =>
    let (negative, cs) := sign cs
    (decimal? cs).bind fun r ↦
      let n := numberOf 10 r.1
      if n < Nat.pow 2 63 then some (.integer (if negative then -n else n), r.2)
      else if negative && n = Nat.pow 2 63 then some (.integer (-n), r.2)
      else none

/-! ## Numbers with a fraction or an exponent -/

/-- A fraction, behind its point. -/
def fraction? : Reader (List Char)
  | '.' :: rest => digits? Char.isDigit rest
  | _ => none

/-- An exponent, behind its letter. -/
def exponent? : Reader Int
  | c :: rest =>
    if c = 'e' || c = 'E' then
      let (negative, rest) := sign rest
      (digits? Char.isDigit rest).map fun r ↦
        (if negative then -(numberOf 10 r.1 : Int) else numberOf 10 r.1, r.2)
    else none
  | [] => none

/-- Whether `digits * 10 ^ exponent` is beyond the range of floating-point numbers. -/
def isTooLarge (digits : List Char) (exponent : Int) : Bool :=
  let n := numberOf 10 digits
  let places : Int := (Nat.toDigits 10 n).length + exponent
  if n = 0 || places < 300 then false
  else if 400 < places then true
  else
    let x :=
      if exponent < 0 then Float.ofScientific n true exponent.natAbs
      else Float.ofScientific n false exponent.natAbs
    x.isInf

/-- The part of a text before a given rest of it. -/
def before (cs rest : List Char) : String :=
  String.ofList (cs.take (cs.length - rest.length))

/-- Whether a number goes on with a fraction or an exponent. -/
def goesOn : List Char → Bool
  | c :: _ => c == '.' || c == 'e' || c == 'E'
  | [] => false

/-- A number with a fraction or an exponent.  One beyond the range is refused unless it is
negative. -/
def float? (cs : List Char) : Option (Toml × List Char) := do
  let (negative, start) := sign cs
  let (whole, rest) ← decimal? start
  if !goesOn rest then none
  let (fraction, rest) ← match rest with
    | '.' :: _ => fraction? rest
    | _ => some ([], rest)
  let (exponent, rest) ←
    if goesOn rest && rest.head? ≠ some '.' then exponent? rest else some (0, rest)
  if !negative && isTooLarge (whole ++ fraction) (exponent - fraction.length) then none
  return (.float (before cs rest), rest)

/-- Infinity, or what is no number. -/
def special? (cs : List Char) : Option (Toml × List Char) :=
  match (sign cs).2 with
  | 'i' :: 'n' :: 'f' :: rest => some (.float (before cs rest), rest)
  | 'n' :: 'a' :: 'n' :: rest => some (.float (before cs rest), rest)
  | _ => none

/-! ## Dates and times -/

/-- A number of exactly so many digits within bounds. -/
def field? (count least greatest : Nat) (cs : List Char) : Option (Nat × List Char) :=
  let digits := cs.take count
  let n := numberOf 10 digits
  if digits.length = count && digits.all Char.isDigit && least ≤ n && n ≤ greatest then
    some (n, cs.drop count)
  else none

/-- What follows a given character. -/
def mark? (c : Char) : List Char → Option (List Char)
  | d :: rest => if d = c then some rest else none
  | [] => none

/-- The days of a month. -/
def daysIn (year month : Nat) : Nat :=
  if month = 2 then
    if year % 4 = 0 && (year % 100 ≠ 0 || year % 400 = 0) then 29 else 28
  else if month = 4 || month = 6 || month = 9 || month = 11 then 30
  else 31

/-- What follows a day. -/
def day? (cs : List Char) : Option (List Char) := do
  let (year, rest) ← field? 4 0 9999 cs
  let rest ← mark? '-' rest
  let (month, rest) ← field? 2 1 12 rest
  let rest ← mark? '-' rest
  let (_, rest) ← field? 2 1 (daysIn year month) rest
  return rest

/-- What follows a time of the day. -/
def time? (cs : List Char) : Option (List Char) := do
  let (_, rest) ← field? 2 0 23 cs
  let rest ← mark? ':' rest
  let (_, rest) ← field? 2 0 59 rest
  let rest ← mark? ':' rest
  let (_, rest) ← field? 2 0 60 rest
  match rest with
  | '.' :: c :: rest =>
    if c.isDigit then return rest.dropWhile Char.isDigit else none
  | '.' :: [] => none
  | _ => return rest

/-- What follows the distance from universal time. -/
def offset? : List Char → Option (List Char)
  | [] => none
  | c :: rest =>
    if c = 'Z' || c = 'z' then some rest
    else if c = '+' || c = '-' then do
      let (_, rest) ← field? 2 0 23 rest
      let rest ← mark? ':' rest
      let (_, rest) ← field? 2 0 59 rest
      return rest
    else none

/-- What follows the time that belongs to a day, if there is one. -/
def timeOfDay? : List Char → Option (List Char)
  | [] => none
  | c :: rest =>
    if c = 'T' || c = 't' || c = ' ' then
      (time? rest).map fun rest ↦ (offset? rest).getD rest
    else none

/-- A date, a time, or both. -/
def date? (cs : List Char) : Option (Toml × List Char) :=
  match day? cs with
  | some rest =>
    let rest := (timeOfDay? rest).getD rest
    some (.date (before cs rest), rest)
  | none => (time? cs).map fun rest ↦ (.date (before cs rest), rest)

/-! ## Scalars -/

/-- A truth value. -/
def bool? : Reader Toml
  | 't' :: 'r' :: 'u' :: 'e' :: rest => some (.bool true, rest)
  | 'f' :: 'a' :: 'l' :: 's' :: 'e' :: rest => some (.bool false, rest)
  | _ => none

/-- A value that is neither an array nor a table. -/
def scalar? (cs : List Char) : Option (Toml × List Char) :=
  match string? cs with
  | some (s, rest) => some (.string s, rest)
  | none =>
    match bool? cs, special? cs, date? cs, float? cs with
    | some r, _, _, _ => some r
    | none, some r, _, _ => some r
    | none, none, some r, _ => some r
    | none, none, none, some r => some r
    | none, none, none, none => integer? cs

end AgentConsole.Toml
