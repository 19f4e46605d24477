import AgentConsole.Decimal.Shortest

/-!
# Layouts of decimals

How the digits of a number are written out: positionally while the point stays within given bounds,
in exponent form beyond them, and with or without a mark on whole numbers.  Each manner of writing
also settles ties in a way of its own.
-/

namespace AgentConsole

/-- A manner of writing decimals. -/
structure DecimalLayout where
  /-- The least place of the point that is still written positionally. -/
  least : Option Int
  /-- The greatest place of the point that is still written positionally. -/
  greatest : Option Int
  /-- What follows a whole number. -/
  whole : String
  /-- Which of two shortest decimals is written. -/
  tie : Tie
  deriving DecidableEq, Repr

namespace DecimalLayout

/-- Never an exponent, and no mark on whole numbers. -/
def plain : DecimalLayout := ⟨none, none, "", .away⟩

/-- The numbers of data texts: a fraction on whole numbers, and an exponent below `0.00001` and
from `10 ^ 16` on. -/
def data : DecimalLayout := ⟨some (-4), some 16, ".0", .even⟩

/-- Whether digits with their point at the given place are written positionally. -/
def isPositional (l : DecimalLayout) (point : Int) : Bool :=
  l.least.all (· ≤ point) && l.greatest.all (point ≤ ·)

/-- Digits with their point written where it belongs. -/
def positional (l : DecimalLayout) (d : Digits) : String :=
  if d.point ≤ 0 then
    "0." ++ String.ofList (List.replicate (-d.point).toNat '0' ++ d.digits)
  else
    let front := d.point.toNat
    if d.digits.length ≤ front then
      String.ofList (d.digits ++ List.replicate (front - d.digits.length) '0') ++ l.whole
    else
      String.ofList (d.digits.take front) ++ "." ++ String.ofList (d.digits.drop front)

/-- Digits with the point after the first and a signed exponent. -/
def scientific (d : Digits) : String :=
  let tail := d.digits.drop 1
  let mantissa :=
    String.ofList (d.digits.take 1) ++ if tail.isEmpty then "" else "." ++ String.ofList tail
  let exponent := d.point - 1
  mantissa ++ "e" ++ (if exponent < 0 then "-" else "+") ++
    String.ofList (Nat.toDigits 10 exponent.natAbs)

/-- The text of a positive finite number, given by its digits. -/
def write (l : DecimalLayout) (d : Digits) : String :=
  if l.isPositional d.point then l.positional d else scientific d

end DecimalLayout

/-- The shortest text of a number, laid out as asked. -/
def writeFloat (l : DecimalLayout) (x : Float) : String :=
  if x.isNaN then "NaN"
  else
    let bits := x.toBits.toNat
    let sign := if Nat.pow 2 63 ≤ bits then "-" else ""
    sign ++
      if x.isInf then "inf"
      else if bits % Nat.pow 2 63 = 0 then "0" ++ l.whole
      else l.write (Digits.ofBits l.tie (bits % Nat.pow 2 63))

end AgentConsole
