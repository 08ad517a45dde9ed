import Regimen.Devices.Strategy

/-!
# Execution

Where and how training runs: the seed of its random numbers, the devices it is spread over, and
settings that are passed on unread.
-/

namespace Regimen

/-- Where random numbers start. -/
inductive Seed where
  /-- From a number. -/
  | fixed (n : Nat)
  /-- From anywhere. -/
  | unseeded
  deriving DecidableEq, Repr

/-- The seed of a worker: its own number further on, around `2 ^ 64`. -/
def Seed.forWorker (worker : Nat) : Seed → Seed
  | fixed n => fixed ((n + worker) % (maxCount + 1))
  | unseeded => unseeded

/-- Where and how training runs. -/
structure Execution where
  /-- Where random numbers start. -/
  seed : Seed
  /-- How training is spread over devices. -/
  strategy : Strategy
  /-- The device of whatever is not spread. -/
  defaultDevice : Option String
  /-- Settings that are passed on unread. -/
  session : Entries
  /-- Nothing is monitored. -/
  unmonitored : Bool
  /-- Time is accounted for. -/
  profiled : Bool

namespace Execution

/-- One device, and nothing else asked for. -/
def standard : Execution := ⟨.unseeded, .single, none, [], false, false⟩

/-! ### Execution in documents -/

/-- A seed, which is a count. -/
def seedDecode : Decoder Seed := fun path v => do
  return .fixed (← Decoder.orDefect Value.count? (.unexpectedIn "seed" .count) path v)

/-- What a section says about execution on a machine with so many GPUs. -/
def reading (available : Nat) (policy : UnknownFields) : Reading Execution := do
  let seed ← Reading.fieldD "seed" seedDecode .unseeded
  let strategy ← Strategy.reading available policy
  let defaultDevice ← Reading.field? "default_device" Decoder.text
  let session ← Reading.fieldD "session_config" Reading.rest.decode []
  let unmonitored ← Reading.fieldD "disable_monitoring" Decoder.boolean false
  let profiled ← Reading.fieldD "enable_profiler" Decoder.boolean false
  Reading.close policy
  return { seed, strategy, defaultDevice, session, unmonitored, profiled }

end Execution

end Regimen
