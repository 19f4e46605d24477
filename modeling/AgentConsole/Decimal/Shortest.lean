/-!
# Shortest decimals

A binary floating-point number stands for every real number that rounds to it.  Its shortest decimal
is the one with the fewest digits among those reals, and among several of that length the nearest.
Two may be equally near; which of them is taken is for the reader of the text to say.

The search needs no rounding of its own.  A binary number `m * 2 ^ q` has an exact decimal
expansion, so it, and the two ends of the interval of reals that round to it, are whole multiples of
one power of ten.  On the grid of the multiples of a larger power of ten only the two neighbours of
the number can be the nearest point of the interval; the coarsest grid that has one there gives the
shortest decimal.  The finest grid holds the number itself, so the search always ends with an
answer.
-/

namespace AgentConsole

/-- Which of two equally near decimals is taken. -/
inductive Tie where
  /-- The one whose last digit is even. -/
  | even
  /-- The one farther from zero. -/
  | away
  deriving DecidableEq, Repr

/-- The reals that round to one positive binary number.  All are multiples of `10 ^ exp`: the number
itself and the ends of the interval, which belong to it when `closed`. -/
structure Rounding where
  value : Nat
  low : Nat
  high : Nat
  closed : Bool
  exp : Int

namespace Rounding

/-- The interval of `m * 2 ^ q`.  Reals round to it up to half a unit away, and ties go to an even
`m`; below the least number of its binade (`narrow`) the unit is half as large. -/
def ofBinary (m : Nat) (q : Int) (narrow : Bool) : Rounding :=
  let scale := if 2 ≤ q then Nat.pow 2 (q - 2).toNat else Nat.pow 5 (2 - q).toNat
  { value := 4 * m * scale
    low := (4 * m - if narrow then 1 else 2) * scale
    high := (4 * m + 2) * scale
    closed := m % 2 == 0
    exp := if 2 ≤ q then 0 else q - 2 }

/-- Whether a number, given in units of `10 ^ exp`, rounds to the value. -/
def holds (r : Rounding) (n : Nat) : Bool :=
  if r.closed then r.low ≤ n && n ≤ r.high else r.low < n && n < r.high

/-- The point of the interval nearest to the value among the multiples of `step`, if there is
one. -/
def nearest? (tie : Tie) (r : Rounding) (step : Nat) : Option Nat :=
  let down := r.value / step * step
  let up := down + step
  match r.holds down, r.holds up with
  | true, true =>
    let below := 2 * (r.value - down)
    if below < step then some down
    else if step < below then some up
    else if tie = .even && down / step % 2 == 0 then some down
    else some up
  | true, false => some down
  | false, true => some up
  | false, false => none

/-- The nearest point on the coarsest grid that has one, from the grid of `10 ^ k` on down. -/
def shortestFrom (tie : Tie) (r : Rounding) : Nat → Nat
  | 0 => r.value
  | k + 1 => (r.nearest? tie (Nat.pow 10 (k + 1))).getD (shortestFrom tie r k)

/-- The shortest number of the interval, in units of `10 ^ exp`. -/
def shortest (tie : Tie) (r : Rounding) : Nat :=
  r.shortestFrom tie (Nat.toDigits 10 r.value).length

end Rounding

/-- A number `0.d₁d₂…dₙ * 10 ^ point`, where the digits neither start nor end with a
zero. -/
structure Digits where
  digits : List Char
  point : Int
  deriving DecidableEq, Repr

/-- The digits of `coeff * 10 ^ exp`. -/
def Digits.ofScaled (coeff : Nat) (exp : Int) : Digits :=
  let all := Nat.toDigits 10 coeff
  { digits := (all.reverse.dropWhile (· == '0')).reverse
    point := all.length + exp }

/-- The shortest digits of the positive finite number with the given bits. -/
def Digits.ofBits (tie : Tie) (bits : Nat) : Digits :=
  let fraction : Nat := bits % Nat.pow 2 52
  let exponent : Nat := bits / Nat.pow 2 52 % Nat.pow 2 11
  let r :=
    if exponent = 0 then Rounding.ofBinary fraction (-1074) false
    else
      Rounding.ofBinary (Nat.pow 2 52 + fraction) ((exponent : Int) - 1075)
        (fraction = 0 && 1 < exponent)
  Digits.ofScaled (r.shortest tie) r.exp

end AgentConsole
