import ScriptDecompiler.Number.Shortest

/-!
# Binary floating-point numbers of 32 bits

A number is kept as its bits, so that the payload of a NaN survives.  Its text
has the fewest digits that read back as the same number.  It is positional for
numbers from `10 ^ -4` up to, not including, `10 ^ 16`, with at least one
digit after the point; outside this range it is a mantissa and an exponent.
-/

namespace ScriptDecompiler.Number

/-- The bits of a number: sign, eight bits of exponent, 23 bits of fraction. -/
structure Binary32 where
  bits : UInt32
  deriving DecidableEq, Repr

namespace Binary32

/-- Is the sign bit set? -/
def isNegative (x : Binary32) : Bool :=
  x.bits.toNat / 0x80000000 == 1

/-- The eight bits of exponent. -/
def biased (x : Binary32) : Nat :=
  x.bits.toNat / 0x800000 % 0x100

/-- The 23 bits of fraction. -/
def fraction (x : Binary32) : Nat :=
  x.bits.toNat % 0x800000

/-- A small integer, exact below `2 ^ 24` in magnitude. -/
def ofInt (n : Int) : Binary32 :=
  let sign := if n < 0 then 0x80000000 else 0
  match n.natAbs with
  | 0 => ⟨0⟩
  | m + 1 =>
    let e := Nat.log2 (m + 1)
    ⟨UInt32.ofNat (sign + (127 + e) * 0x800000 +
      (m + 1 - Nat.pow 2 e) * Nat.pow 2 (23 - e))⟩

/-- The integer `m` and the exponent `q` with `m · 2 ^ q` the magnitude of a
finite number. -/
def significand (x : Binary32) : Nat × Int :=
  if x.biased = 0 then (x.fraction, -149)
  else (x.fraction + 0x800000, Int.ofNat x.biased - 150)

/-- The magnitude of a finite number other than zero, with the interval of the
reals that round to it.  Quarter units are used because the number below a
power of two is only half a unit away. -/
def neighbourhood (x : Binary32) : Number.Neighbourhood :=
  let (m, q) := x.significand
  let below := if x.fraction = 0 ∧ 1 < x.biased then 1 else 2
  let base : Number.Neighbourhood :=
    ⟨4 * m, 4 * m - below, 4 * m + 2, 4, m % 2 == 0⟩
  if 0 ≤ q then base.scale (Nat.pow 2 q.toNat) else base.shrink (Nat.pow 2 (-q).toNat)

/-- The fewest digits that read back as the magnitude of a finite number. -/
def decimal (x : Binary32) : Number.Decimal :=
  if x.biased = 0 ∧ x.fraction = 0 then ⟨['0'], 0⟩
  else
    let n := x.neighbourhood
    Number.Decimal.search n (Number.Decimal.leadingExponent n 39 90) 1 9

/-- Digits before and after the point, at least one on each side. -/
def positional (d : Number.Decimal) : List Char :=
  if d.exponent < 0 then
    ['0', '.'] ++ List.replicate ((-d.exponent).toNat - 1) '0' ++ d.digits
  else
    let before := d.exponent.toNat + 1
    let whole := d.digits.take before ++ List.replicate (before - d.digits.length) '0'
    let after := d.digits.drop before
    whole ++ '.' :: (if after.isEmpty then ['0'] else after)

/-- One digit before the point, the others after it, and the exponent. -/
def scientific (d : Number.Decimal) : List Char :=
  let mantissa := match d.digits with
    | first :: second :: rest => first :: '.' :: second :: rest
    | digits => digits
  let exponent := if d.exponent < 0 then '-' :: Nat.toDigits 10 d.exponent.natAbs
    else Nat.toDigits 10 d.exponent.natAbs
  mantissa ++ 'e' :: exponent

/-- The text of a magnitude. -/
def magnitude (d : Number.Decimal) : List Char :=
  if -4 ≤ d.exponent ∧ d.exponent < 16 then positional d else scientific d

/-- The text of a number.  The sign of a zero is shown, that of a NaN is not. -/
def text (x : Binary32) : String :=
  if x.biased = 255 ∧ x.fraction ≠ 0 then "NaN"
  else
    let body := if x.biased = 255 then ['i', 'n', 'f'] else magnitude x.decimal
    String.ofList (if x.isNegative then '-' :: body else body)

end Binary32

end ScriptDecompiler.Number
