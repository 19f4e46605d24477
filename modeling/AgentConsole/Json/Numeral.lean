import AgentConsole.Json.Basic

/-!
# Numerals

A numeral of a JSON text and the number it stands for.  A numeral without point and exponent stands
for an integer while that fits 64 bits.  Every other numeral is read as
`significand * 10 ^ exponent`, where the significand holds as many leading digits as fit 64 bits: it
is rounded to floating point, the power of ten is too, and their product or quotient is rounded once
more.  The result may differ in its last bit from the nearest floating-point number.
-/

namespace AgentConsole

/-- A numeral as written: its sign, the digits before and after the point, and the exponent. -/
structure Numeral where
  negative : Bool
  whole : List Char
  fraction : Option (List Char)
  exponent : Option Int
  deriving DecidableEq, Repr

namespace Numeral

/-- The value of a digit. -/
def digitValue (c : Char) : Nat :=
  c.toNat - '0'.toNat

/-- The number that a list of digits stands for. -/
def valueOf (digits : List Char) : Nat :=
  digits.foldl (fun n c ↦ 10 * n + digitValue c) 0

/-- One or more digits at the start of a text, and the rest. -/
def digits? (cs : List Char) : Option (List Char × List Char) :=
  let digits := cs.takeWhile Char.isDigit
  if digits.isEmpty then none else some (digits, cs.dropWhile Char.isDigit)

/-- The digits before the point: a single zero, or digits that do not start with one. -/
def whole? (cs : List Char) : Option (List Char × List Char) :=
  match digits? cs with
  | some ('0' :: _ :: _, _) => none
  | other => other

/-- The part after a point, if there is one. -/
def fraction? : List Char → Option (Option (List Char) × List Char)
  | '.' :: cs => (digits? cs).map fun r ↦ (some r.1, r.2)
  | cs => some (none, cs)

/-- An exponent, which ends the numeral, if there is one. -/
def exponent? : List Char → Option (Option Int)
  | [] => some none
  | c :: cs =>
    if c = 'e' ∨ c = 'E' then
      let (sign, cs) : Int × List Char :=
        match cs with
        | '-' :: cs => (-1, cs)
        | '+' :: cs => (1, cs)
        | cs => (1, cs)
      match digits? cs with
      | some (digits, []) => some (some (sign * valueOf digits))
      | _ => none
    else none

/-- A text that is a numeral. -/
def read? (cs : List Char) : Option Numeral := do
  let (negative, cs) := match cs with
    | '-' :: cs => (true, cs)
    | cs => (false, cs)
  let (whole, cs) ← whole? cs
  let (fraction, cs) ← fraction? cs
  let exponent ← exponent? cs
  return { negative, whole, fraction, exponent }

/-- The bound of integers. -/
def limit : Nat := Nat.pow 2 64

/-- Takes digits into a significand as long as it stays below the limit; the digits left over. -/
def absorb (significand : Nat) : List Char → Nat × List Char
  | [] => (significand, [])
  | c :: cs =>
    let next := 10 * significand + digitValue c
    if next < limit then absorb next cs else (significand, c :: cs)

/-- A power of ten in floating point. -/
def powerOfTen (k : Nat) : Float :=
  Float.ofScientific 1 false k

/-- `x * 10 ^ exponent`, rounded; none when it is too large.  The powers of ten end at `10 ^ 308`.
An exponent below `-308` is taken in steps, and nothing is left of any significand after two of
them. -/
def scale? (x : Float) (exponent : Int) : Option Float :=
  if 308 < exponent then if x == 0 then some x else none
  else if 0 ≤ exponent then
    let y := x * powerOfTen exponent.toNat
    if y.isInf then none else some y
  else if -308 ≤ exponent then some (x / powerOfTen (-exponent).toNat)
  else if -616 ≤ exponent then some (x / powerOfTen 308 / powerOfTen (-exponent - 308).toNat)
  else some 0

/-- The floating-point number of a numeral; none when it is too large. -/
def toFloat? (n : Numeral) : Option Float :=
  let (front, left) := absorb 0 n.whole
  let fraction := n.fraction.getD []
  let (significand, ignored) := absorb front fraction
  let taken := fraction.length - ignored.length
  (scale? (Float.ofNat significand) (left.length - taken + n.exponent.getD 0)).map fun x ↦
    if n.negative then -x else x

/-- The number of a numeral; none when it is too large.  There is no negative zero among the
integers. -/
def toNumber? (n : Numeral) : Option Number :=
  let value := valueOf n.whole
  let isInteger :=
    n.fraction.isNone && n.exponent.isNone &&
      if n.negative then 0 < value && value ≤ Nat.pow 2 63 else value < limit
  if isInteger then some (.int (if n.negative then -value else value))
  else n.toFloat?.map .float

end Numeral

end AgentConsole
