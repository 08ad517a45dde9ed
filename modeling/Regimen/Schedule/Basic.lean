import Regimen.Range

/-!
# Schedules

A schedule is a number that changes while an agent is trained: a learning rate, a share of random
actions. It is constant, or it leads from one number to another along a curve. The part of the way
that is done (`progressIn`) is the step over the number of steps; a schedule with a window of its
own counts both from the window's start.

Values are computed by the operations of an `Arithmetic`, so that a statement about schedules can
say what it takes from the rounding of those operations and from the power function.
`Arithmetic.machine` holds those of the processor. Comparisons do not round and are not part of it.

The ends are returned as they were written, never recomputed, and what lies between them is clamped
to them (`clamped`).
-/

namespace Regimen

/-- The operations that the values of schedules are computed with. -/
structure Arithmetic where
  /-- The number nearest to a count. -/
  ofCount : Nat → Float
  /-- Sums. -/
  add : Float → Float → Float
  /-- Differences. -/
  sub : Float → Float → Float
  /-- Products. -/
  mul : Float → Float → Float
  /-- Quotients. -/
  div : Float → Float → Float
  /-- Powers, with a fraction as exponent. -/
  power : Float → Float → Float

/-- The operations of the processor. -/
def Arithmetic.machine : Arithmetic where
  ofCount n := Float.ofNat n
  add x y := x + y
  sub x y := x - y
  mul x y := x * y
  div x y := x / y
  power x y := Float.pow x y

/-! ### Comparing numbers -/

/-- The lesser of two numbers, the second when they are equal, as the two zeros are; an undefined
number gives way to the other. -/
def lesser (x y : Float) : Float := if y.isNaN ∨ x < y then x else y

/-- The greater of two numbers, the second when they are equal, as the two zeros are; an undefined
number gives way to the other. -/
def greater (x y : Float) : Float := if y.isNaN ∨ y < x then x else y

/-- The number between two bounds that is nearest to `x`. -/
def clamped (least greatest x : Float) : Float :=
  let x := if x < least then least else x
  if greatest < x then greatest else x

/-! ### Schedules -/

/-- The shape of the way between the ends of a schedule. -/
inductive Curve where
  /-- The same difference over every step. -/
  | linear
  /-- Quadratic, levelling out towards the end. -/
  | polynomial
  /-- The same factor over every step. -/
  | exponential
  deriving DecidableEq, Repr

/-- The steps over which a schedule goes its way. -/
structure Window where
  /-- The last step with the initial value. -/
  start : Nat
  /-- The number of steps from there to the final value. -/
  length : Nat
  deriving DecidableEq, Repr

/-- A number that changes during training. -/
inductive Schedule where
  /-- Always the same value. -/
  | constant (value : Float)
  /-- From one value to another, over the whole training or over a window of its own. -/
  | curved (curve : Curve) (initial final : Float) (window : Option Window)
  deriving DecidableEq

namespace Curve

/-- The curve that a name stands for. -/
def ofName? : String → Option Curve
  | "linear" | "linear_decay" => some linear
  | "polynomial" | "polynomial_decay" => some polynomial
  | "exponential" | "exponential_decay" => some exponential
  | _ => none

/-- The name of a curve. -/
def name : Curve → String
  | linear => "linear"
  | polynomial => "polynomial"
  | exponential => "exponential"

/-- The value when the part `p` of the way from `x` to `y` is done. -/
def between (A : Arithmetic) (x y p : Float) : Curve → Float
  | linear => A.add x (A.mul (A.sub y x) p)
  | polynomial =>
    let left := A.sub 1.0 p
    A.add y (A.mul (A.sub x y) (A.mul left left))
  | exponential => A.mul x (A.power (A.div y x) p)

end Curve

/-- The part of `total` steps that is done after `step` of them, from zero to one. Of no steps, all
are done. -/
def progressIn (A : Arithmetic) (step total : Nat) : Float :=
  if total = 0 then 1.0 else clamped 0.0 1.0 (A.div (A.ofCount step) (A.ofCount total))

/-- The part of the way that is done, computed by the processor. -/
def progress (step total : Nat) : Float := progressIn .machine step total

namespace Schedule

/-- The value at the start. -/
def initial : Schedule → Float
  | constant value => value
  | curved _ initial _ _ => initial

/-- The value at the end. -/
def final : Schedule → Float
  | constant value => value
  | curved _ _ final _ => final

/-- The least value. -/
def least (s : Schedule) : Float := lesser s.initial s.final

/-- The greatest value. -/
def greatest (s : Schedule) : Float := greater s.initial s.final

/-- The value never rises. Every curve leads one way, so that only the ends count. -/
def Falls (s : Schedule) : Prop := s.final ≤ s.initial

instance (s : Schedule) : Decidable s.Falls := inferInstanceAs (Decidable (_ ≤ _))

/-- The part of the way that is done after `step` of `total` steps of training. -/
def progressAt (A : Arithmetic) (window : Option Window) (step total : Nat) : Float :=
  match window with
  | some w => progressIn A (step - w.start) w.length
  | none => progressIn A step total

/-- The value after `step` of `total` steps of training. -/
def valueIn (A : Arithmetic) (s : Schedule) (step total : Nat) : Float :=
  match s with
  | constant value => value
  | curved curve initial final window =>
    let p := progressAt A window step total
    if p ≤ 0.0 then initial
    else if 1.0 ≤ p then final
    else clamped (lesser initial final) (greater initial final) (curve.between A initial final p)

/-- The value after `step` of `total` steps of training, computed by the processor. -/
def valueAt (s : Schedule) (step total : Nat) : Float := s.valueIn .machine step total

/-- All values lie in a range. Ranges have no gaps, so that only the least and the greatest value
count. -/
def Within (s : Schedule) (range : Range) : Prop :=
  range.Contains s.least ∧ range.Contains s.greatest

instance (s : Schedule) (range : Range) : Decidable (s.Within range) :=
  inferInstanceAs (Decidable (_ ∧ _))

end Schedule

end Regimen
