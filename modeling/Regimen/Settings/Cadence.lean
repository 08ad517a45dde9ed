import Regimen.Section

/-!
# Cadence

When an agent learns, and from how much. An update is due at every multiple of an interval of time
steps or of episodes, once enough records are buffered (`Cadence.UpdateDue`). An agent with a target
network brings it up to date at a second interval, counted in steps or in updates
(`Cadence.SyncDue`); an agent that goes over a batch several times has a number of rounds instead.
-/

namespace Regimen

namespace Cadence

/-- What the update interval counts. -/
inductive Measure where
  /-- Time steps. -/
  | timeSteps
  /-- Episodes. -/
  | episodes
  deriving DecidableEq, Repr

/-- What the interval of the target network counts. -/
inductive Basis where
  /-- What the update interval counts. -/
  | steps
  /-- Updates. -/
  | updates
  deriving DecidableEq, Repr

/-- When the target network is brought up to date. -/
structure TargetSync where
  /-- The interval. -/
  interval : Nat
  /-- What it counts. -/
  basis : Basis
  deriving DecidableEq, Repr

/-- How often a batch is gone over. -/
structure Rounds where
  /-- The number of rounds in an update. -/
  number : Nat
  /-- The number of records that a round learns from. -/
  sample : Nat
  deriving DecidableEq, Repr

/-- How a kind of agent learns. -/
inductive Family where
  /-- Towards a target network. -/
  | targetSync (basis : Basis)
  /-- In rounds over a batch. -/
  | iterative
  deriving DecidableEq, Repr

/-- Where an agent stands. -/
inductive Phase where
  /-- Too few records are buffered. -/
  | collecting
  /-- Enough are buffered, and no update is due. -/
  | ready
  /-- An update is due. -/
  | updating
  deriving DecidableEq, Repr

end Cadence

/-- When an agent learns, and from how much. -/
structure Cadence where
  /-- What the update interval counts. -/
  measure : Cadence.Measure
  /-- Whether there are updates at all. -/
  enabled : Bool
  /-- The update interval. -/
  interval : Nat
  /-- The number of records that an update learns from. -/
  batch : Nat
  /-- The number of records that have to be buffered before an update. -/
  threshold : Nat
  /-- When the target network is brought up to date. -/
  targetSync : Option Cadence.TargetSync
  /-- How often a batch is gone over. -/
  rounds : Option Cadence.Rounds
  deriving DecidableEq, Repr

namespace Cadence

/-- What the interval of the target network counts, if there is one. -/
def basis (c : Cadence) : Option Basis := c.targetSync.map TargetSync.basis

/-- An update is due when the count is a positive multiple of the interval and enough is buffered. -/
def UpdateDue (c : Cadence) (count buffered : Nat) : Prop :=
  c.enabled ∧ 0 < count ∧ count % c.interval = 0 ∧ c.threshold ≤ buffered

instance (c : Cadence) (count buffered : Nat) : Decidable (c.UpdateDue count buffered) :=
  inferInstanceAs (Decidable (_ ∧ _))

/-- Where an agent stands that has counted so many steps or episodes. -/
def phase (c : Cadence) (count buffered : Nat) : Phase :=
  if buffered < c.threshold then .collecting
  else if c.UpdateDue count buffered then .updating
  else .ready

/-- The target network is due. Steps are counted from one, and it is due at every multiple of the
interval; of updates, those that came before are counted, and the network follows the second update
and each one an interval later. -/
def SyncDue (c : Cadence) (count : Nat) : Prop :=
  match c.targetSync with
  | some ⟨interval, .steps⟩ => 0 < count ∧ count % interval = 0
  | some ⟨interval, .updates⟩ => count % interval = 1 % interval
  | none => False

instance (c : Cadence) (count : Nat) : Decidable (c.SyncDue count) := by
  unfold SyncDue
  split <;> infer_instance

/-- The number of rounds in an update. -/
def roundsPerUpdate (c : Cadence) : Nat := (c.rounds.map Rounds.number).getD 1

/-- The number of records that a round learns from. -/
def minibatch (c : Cadence) : Nat := (c.rounds.map Rounds.sample).getD c.batch

/-! ### Cadences in documents -/

/-- What the update interval counts, by its name. -/
def measureDecode : Decoder Measure := fun path v => do
  match ← Decoder.text path v with
  | "time_steps" => return .timeSteps
  | "episodes" => return .episodes
  | name => throw (.invalid path (.unsupportedUpdateMode name))

/-- The fields of other families than the given one. -/
def Family.foreign : Family → List String
  | targetSync _ => ["num_iterations", "sample_size"]
  | iterative => ["sync_interval"]

/-- When the target network of a family is brought up to date. -/
def targetSyncReading : Family → Reading (Option TargetSync)
  | .targetSync basis => do return some ⟨← Reading.field "sync_interval" Decoder.interval, basis⟩
  | .iterative => return none

/-- How often a family goes over a batch: once unless given, and over all of it unless given. -/
def roundsReading (batch : Nat) : Family → Reading (Option Rounds)
  | .targetSync _ => return none
  | .iterative => do
    let number ← Reading.fieldD "num_iterations" Decoder.interval 1
    let sample ← Reading.fieldD "sample_size" Decoder.interval batch
    Reading.ensure (sample ≤ batch)
      ⟨← Reading.placeOf "sample_size", .inconsistent (.sampleExceedsBatch sample batch)⟩
    return some ⟨number, sample⟩

/-- The cadence that a section describes, for an agent of a family whose observations are handed
over in buffers of a size. Updates wait for a whole batch, for the steps that are to go before, and
for a whole buffer. -/
def reading (family : Family) (agent : String) (buffer : Option Nat) (policy : UnknownFields) :
    Reading Cadence := do
  Reading.forbid family.foreign agent
  let measure ← Reading.fieldD "update_mode" measureDecode .timeSteps
  let enabled ← Reading.fieldD "do_updates" Decoder.boolean true
  let interval ← Reading.field "update_interval" Decoder.interval
  let batch ← Reading.field "batch_size"
    (Decoder.orDefect Value.positive? (.unexpectedIn "batch_size" .positiveCount))
  let before ← Reading.fieldD "steps_before_update" Decoder.count 0
  let targetSync ← targetSyncReading family
  let rounds ← roundsReading batch family
  Reading.close policy
  let threshold := max (max batch before) (buffer.getD 0)
  return { measure, enabled, interval, batch, threshold, targetSync, rounds }

end Cadence

end Regimen
