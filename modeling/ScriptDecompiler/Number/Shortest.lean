/-!
# The shortest decimal inside an interval around a number

A positive number is given as a fraction, with the bounds of the interval of
numbers that read back as it.  For one digit, two digits and so on, the two
neighbours of the number on that decimal grid are tried; the first grid with a
neighbour inside the interval wins, and of two such neighbours the nearer one,
the upper one if both are equally near.

All arithmetic is exact and on natural numbers: every quantity is a numerator
over one common denominator.
-/

namespace ScriptDecompiler.Number

/-- A positive number `value / denominator` and the interval of numbers that
stand for it.  The bounds belong to the interval when `closed` holds. -/
structure Neighbourhood where
  value : Nat
  lower : Nat
  upper : Nat
  denominator : Nat
  closed : Bool
  deriving DecidableEq, Repr

namespace Neighbourhood

/-- Is `numerator / denominator` in the interval? -/
def holds (n : Neighbourhood) (numerator : Nat) : Bool :=
  if n.closed then n.lower ≤ numerator && numerator ≤ n.upper
  else n.lower < numerator && numerator < n.upper

/-- Multiply the number and its interval by a natural number. -/
def scale (n : Neighbourhood) (k : Nat) : Neighbourhood :=
  { n with value := n.value * k, lower := n.lower * k, upper := n.upper * k }

/-- Divide the number and its interval by a positive natural number. -/
def shrink (n : Neighbourhood) (k : Nat) : Neighbourhood :=
  { n with denominator := n.denominator * k }

/-- The number times ten to the power `-exponent`. -/
def shift (n : Neighbourhood) (exponent : Int) : Neighbourhood :=
  if 0 ≤ exponent then n.shrink (Nat.pow 10 exponent.toNat)
  else n.scale (Nat.pow 10 (-exponent).toNat)

/-- The integer that stands for the number, if there is one. -/
def integer? (n : Neighbourhood) : Option Nat :=
  let below := n.value / n.denominator
  let low := below * n.denominator
  let high := low + n.denominator
  match n.holds low, n.holds high with
  | true, true => some (if 2 * (n.value - low) < n.denominator then below else below + 1)
  | true, false => some below
  | false, true => some (below + 1)
  | false, false => none

end Neighbourhood

/-- The digits of a decimal number and the exponent of its first digit: the
value is `d₀.d₁d₂… · 10 ^ exponent`. -/
structure Decimal where
  digits : List Char
  exponent : Int
  deriving DecidableEq, Repr

namespace Decimal

/-- The decimal for `integer · 10 ^ exponent`, without zeros at its end. -/
def ofScaled (integer : Nat) (exponent : Int) : Decimal :=
  let all := Nat.toDigits 10 integer
  let kept := (all.reverse.dropWhile (· == '0')).reverse
  ⟨if kept.isEmpty then ['0'] else kept, exponent + all.length - 1⟩

/-- Try the grids with `count` digits and more.  `exponent` is that of the first
digit of the number. -/
def search (n : Neighbourhood) (exponent : Int) (count : Nat) : Nat → Decimal
  | 0 => ofScaled (n.value / n.denominator) 0
  | fuel + 1 =>
    let unit := exponent + 1 - count
    match (n.shift unit).integer? with
    | some integer => ofScaled integer unit
    | none => search n exponent (count + 1) fuel

/-- The greatest exponent whose power of ten does not exceed the number; it is
looked for from `candidate` downwards. -/
def leadingExponent (n : Neighbourhood) (candidate : Int) : Nat → Int
  | 0 => candidate
  | fuel + 1 =>
    let shifted := n.shift candidate
    if shifted.denominator ≤ shifted.value then candidate
    else leadingExponent n (candidate - 1) fuel

end Decimal

end ScriptDecompiler.Number
