import Regimen.Schedule.Decoding

/-!
# Exploration

An agent that explores takes a random action with a probability, epsilon, that never rises during
training. The schedule of epsilon may stand in an object of its own, under `decay_spec`.
-/

namespace Regimen

/-- How an agent explores. -/
structure Exploration where
  /-- The probability of a random action. -/
  epsilon : Schedule
  deriving DecidableEq

namespace Exploration

/-- The schedule that stands in an object of its own. -/
def wrapped (policy : UnknownFields) : Reading Schedule := do
  let schedule ← Reading.field "decay_spec" Schedule.decode
  Reading.close policy
  return schedule

/-- The schedule of epsilon. An object with a key `decay_spec` wraps it, whatever the value is. -/
def epsilonDecode (policy : UnknownFields) : Decoder Schedule := fun path v =>
  match v with
  | .object entries =>
    if "decay_spec" ∈ Entries.keys entries then (wrapped policy).decode path v else Schedule.decode path v
  | _ => Schedule.decode path v

/-- The way of exploring that a section describes. -/
def reading (policy : UnknownFields) : Reading Exploration := do
  let place ← Reading.placeOf "epsilon_spec"
  let epsilon ← Reading.field "epsilon_spec" (epsilonDecode policy)
  Reading.close policy
  Reading.ensure (epsilon.Within .unit)
    (.invalid place (.scheduleOutside epsilon.least epsilon.greatest .unit))
  Reading.ensure epsilon.Falls (.invalid place (.risingEpsilon epsilon.initial epsilon.final))
  return ⟨epsilon⟩

end Exploration

end Regimen
