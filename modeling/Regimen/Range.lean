/-!
# Ranges

The ranges that the numbers of a document are held to. An undefined number, which compares with none,
lies in no range.
-/

namespace Regimen

/-- A range of numbers. -/
inductive Range where
  /-- Greater than zero. -/
  | positive
  /-- Zero or greater. -/
  | nonNegative
  /-- From zero to one, both included. -/
  | unit
  /-- From zero to one, zero excluded. -/
  | positiveUnit
  deriving DecidableEq, Repr

namespace Range

/-- The number lies in the range. -/
def Contains (x : Float) : Range → Prop
  | positive => 0.0 < x
  | nonNegative => 0.0 ≤ x
  | unit => 0.0 ≤ x ∧ x ≤ 1.0
  | positiveUnit => 0.0 < x ∧ x ≤ 1.0

instance (x : Float) (r : Range) : Decidable (r.Contains x) := by
  cases r <;> unfold Contains <;> infer_instance

/-- What a number outside of the range has to be. -/
def ofNumber : Range → String
  | positive => "positive"
  | nonNegative => ">= 0"
  | unit => "within [0, 1]"
  | positiveUnit => "within (0, 1]"

/-- What the values of a schedule outside of the range have to be. -/
def ofSchedule : Range → String
  | nonNegative => "non-negative"
  | range => range.ofNumber

end Range

end Regimen
