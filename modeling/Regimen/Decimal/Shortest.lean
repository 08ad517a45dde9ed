/-!
# Shortest decimals

A binary64 number is one point of the interval of reals that round to it. This module chooses the
decimal `digits * 10 ^ exponent` that stands for the number in a text: a point of the interval on
the coarsest grid of powers of ten that has one, so that no decimal with fewer digits reads back as
the same number, and of the points on that grid the nearest to the number. The interval is computed
exactly, over the rationals, and no rounding takes place anywhere.

`Interval.Contains` says which reals round to the number. `shortest` is the choice.
-/

namespace Regimen.Decimal

/-- The number `digits * 10 ^ exponent`. -/
structure Digits where
  /-- The digits, read as one natural number. -/
  digits : Nat
  /-- The power of ten that the last digit counts. -/
  exponent : Int
  deriving DecidableEq, Repr

/-- The rational number that the digits stand for. -/
def Digits.value (d : Digits) : Rat := (d.digits : Rat) * (10 : Rat) ^ d.exponent

/-- Which of two equally near decimals is chosen. -/
inductive Tie where
  /-- The one whose last digit is even. -/
  | even
  /-- The greater one. -/
  | up
  deriving DecidableEq, Repr

/-- A positive finite binary64 number with the interval of reals that round to it. -/
structure Interval where
  /-- The midpoint between the number and the next smaller one. -/
  low : Rat
  /-- The number itself. -/
  value : Rat
  /-- The midpoint between the number and the next greater one. -/
  high : Rat
  /-- Both midpoints round to the number, as they do when its last binary digit is zero. -/
  closed : Bool
  /-- A power of ten that is greater than the number. -/
  scale : Int

namespace Interval

/-- The interval of `mantissa * 2 ^ exponent`. The gap below the number is half the gap above it
when `narrow` holds, that is, at the powers of two. -/
def of (mantissa : Nat) (exponent : Int) (narrow : Bool) : Interval where
  low := (4 * mantissa - if narrow then 1 else 2 : Nat) * (2 : Rat) ^ (exponent - 2)
  value := mantissa * (2 : Rat) ^ exponent
  high := (4 * mantissa + 2 : Nat) * (2 : Rat) ^ (exponent - 2)
  closed := mantissa % 2 = 0
  scale := (mantissa.log2 + 1 + exponent) * 30103 / 100000 + 1

/-- The interval of the magnitude that the bits of a finite number hold. -/
def ofBits (bits : UInt64) : Interval :=
  let biased := (bits >>> 52).toNat % 2048
  let fraction := bits.toNat % Nat.pow 2 52
  if biased = 0 then of fraction (-1074) false
  else of (Nat.pow 2 52 + fraction) (biased - 1075) (fraction = 0 && 1 < biased)

/-- The real number `x` rounds to the number. -/
def Contains (i : Interval) (x : Rat) : Prop :=
  if i.closed then i.low ≤ x ∧ x ≤ i.high else i.low < x ∧ x < i.high

instance (i : Interval) (x : Rat) : Decidable (i.Contains x) := by
  unfold Contains
  infer_instance

/-- The point of the grid of multiples of `10 ^ exponent` that reads back as the number, if there
is one. Only the two neighbours of the number on the grid can be nearest to it. -/
def onGrid (i : Interval) (tie : Tie) (exponent : Int) : Option Digits :=
  let below := (i.value / (10 : Rat) ^ exponent).floor.toNat
  let lower : Digits := ⟨below, exponent⟩
  let upper : Digits := ⟨below + 1, exponent⟩
  match decide (i.Contains lower.value), decide (i.Contains upper.value) with
  | false, false => none
  | true, false => some lower
  | false, true => some upper
  | true, true =>
    let down := i.value - lower.value
    let rise := upper.value - i.value
    if down < rise then some lower
    else if rise < down then some upper
    else match tie with
      | .up => some upper
      | .even => some (if below % 2 = 0 then lower else upper)

/-- The shortest decimal in the interval. Twenty-four grids reach from above the leading digit to
beyond the seventeenth, where every interval has a point; the last alternative is the exact value,
which is a multiple of the least power of two. -/
def shortest (i : Interval) (tie : Tie) : Digits :=
  ((List.range 24).findSome? fun n : Nat => i.onGrid tie (i.scale - n)).getD
    ⟨(i.value * (10 : Rat) ^ (1074 : Int)).floor.toNat, -1074⟩

end Interval

/-- The shortest decimal for the magnitude of a finite number; zero is its own decimal. -/
def shortest (x : Float) (tie : Tie) : Digits :=
  if x == 0.0 then ⟨0, 0⟩ else (Interval.ofBits x.toBits).shortest tie

/-- The sign bit of the number is set, as it is for the negative zero. -/
def isNegative (x : Float) : Bool := Nat.pow 2 63 ≤ x.toBits.toNat

end Regimen.Decimal
