import Regimen.Decimal.Layout
import Regimen.Document.Path
import Regimen.Document.Text
import Regimen.Range

/-!
# Faults

Why a document is refused. A fault is a cause at a place; the place is that of the offending value,
or of the field that is missing. Causes say what is wrong in the terms of the domain, and their
wording stands in this module alone: `Fault.message` is the text of a fault. One cause is no refusal
but a panic, which ends a computation as a fault does (`Cause.overflow`).
-/

namespace Regimen

/-- What a value was expected to be. -/
inductive Expected where
  /-- An object. -/
  | object
  /-- A text. -/
  | text
  /-- A truth value. -/
  | boolean
  /-- A number. -/
  | number
  /-- A number that is neither infinite nor undefined. -/
  | finiteNumber
  /-- A count. -/
  | count
  /-- A count other than zero. -/
  | positiveCount
  /-- A list of layers or of preprocessors. -/
  | descriptors
  deriving DecidableEq, Repr

/-- The wording of an expectation. -/
def Expected.phrase : Expected → String
  | object => "an object"
  | text => "a string"
  | boolean => "a boolean"
  | number => "a number"
  | finiteNumber => "a finite number"
  | count => "a non-negative integer"
  | positiveCount => "a positive integer"
  | descriptors => "a list of descriptors"

/-- What is wrong with a value that is there. -/
inductive Defect where
  /-- The value is of another kind than expected. -/
  | unexpected (expected : Expected)
  /-- The value of a field, which the wording names, is of another kind than expected. -/
  | unexpectedIn (field : String) (expected : Expected)
  /-- A number lies outside of its range; the wording may name the field. -/
  | outside (field : Option String) (range : Range)
  /-- A number is infinite or undefined. -/
  | notFinite (x : Float)
  /-- A schedule is written in none of the ways to write one. -/
  | scheduleForm
  /-- A schedule that is written as a list has another number of elements than three. -/
  | tripleLength (length : Nat)
  /-- A constant schedule has two different ends. -/
  | unequalConstant
  /-- An exponential schedule cannot lead from one end to the other. -/
  | exponentialEnds
  /-- The values of a schedule leave their range. -/
  | scheduleOutside (least greatest : Float) (range : Range)
  /-- The share of random actions rises. -/
  | risingEpsilon (initial final : Float)
  /-- A network has no layers. -/
  | noLayers
  /-- No optimizer has this name. -/
  | unsupportedOptimizer (name : String)
  /-- More devices are requested than can be counted. -/
  | tooManyDevices
  /-- A map of devices is empty. -/
  | noDevices
  /-- No device strategy has this name. -/
  | unsupportedStrategy (name : String)
  /-- No unit of the update interval has this name. -/
  | unsupportedUpdateMode (name : String)
  deriving DecidableEq

/-- The wording of a defect. -/
def Defect.phrase : Defect → String
  | unexpected expected => "expected " ++ expected.phrase
  | unexpectedIn field expected => field ++ " must be " ++ expected.phrase
  | outside none range => "must be " ++ range.ofNumber
  | outside (some field) range => field ++ " must be " ++ range.ofNumber
  | notFinite x => "value " ++ Decimal.plain x ++ " is not finite"
  | scheduleForm => "schedule must be a number, a [kind, from, to] triple or an object"
  | tripleLength length => "schedule triple must have 3 elements, got " ++ toString length
  | unequalConstant => "constant schedule needs equal from and to"
  | exponentialEnds => "exponential schedule needs non-zero endpoints of the same sign"
  | scheduleOutside least greatest range =>
    "schedule values [" ++ Decimal.plain least ++ ", " ++ Decimal.plain greatest ++ "] must be "
      ++ range.ofSchedule
  | risingEpsilon initial final =>
    "epsilon must not increase over training (from " ++ Decimal.plain initial ++ " to "
      ++ Decimal.plain final ++ ")"
  | noLayers => "network needs at least one layer"
  | unsupportedOptimizer name => "unsupported optimizer `" ++ name ++ "`"
  | tooManyDevices => "too many devices requested"
  | noDevices => "custom strategy needs at least one entry"
  | unsupportedStrategy name => "unsupported device strategy `" ++ name ++ "`"
  | unsupportedUpdateMode name =>
    "update_mode must be `time_steps` or `episodes`, got `" ++ name ++ "`"

/-- Why a memory cannot have the capacity that is written. -/
inductive CapacityDefect where
  /-- It could hold nothing. -/
  | zero
  /-- It is no count. -/
  | noCount
  deriving DecidableEq, Repr

/-- The wording of a capacity's defect. -/
def CapacityDefect.phrase : CapacityDefect → String
  | zero => "capacity must be greater than zero"
  | noCount => "capacity must be a positive integer"

/-- Why training cannot run on several GPUs at once. -/
inductive Shortage where
  /-- The GPUs are not described. -/
  | undescribed
  /-- They are described, but not enabled. -/
  | disabled
  /-- None is requested. -/
  | noneRequested
  /-- More are requested than there are, and none may be stood in for. -/
  | tooFew (requested available : Nat)
  deriving DecidableEq, Repr

/-- The wording of a shortage. -/
def Shortage.phrase : Shortage → String
  | undescribed => "multi_gpu_sync requires a gpu_spec"
  | disabled => "multi_gpu_sync requires gpus_enabled = true"
  | noneRequested => "multi_gpu_sync requires max_usable_gpus >= 1"
  | tooFew requested available =>
    "requested " ++ toString requested ++ " GPUs but only " ++ toString available
      ++ " available and fake_gpus_if_necessary is false"

/-- Fields that are fine by themselves and do not go together. -/
inductive Inconsistency where
  /-- A schedule has a start, but no length. -/
  | startWithoutLength
  /-- A sample is greater than the batch that it is taken from. -/
  | sampleExceedsBatch (sample batch : Nat)
  /-- An agent that learns from priorities has a memory without them. -/
  | unprioritized (memory : String)
  /-- The optimizer of a value function is given without the value function. -/
  | optimizerWithoutNetwork
  /-- A batch is greater than memory. -/
  | batchExceedsCapacity (batch capacity : Nat)
  /-- Updates wait for more records than memory holds. -/
  | neverFires (awaited capacity : Nat)
  /-- Records are overwritten between two updates. -/
  | overwritten (interval capacity : Nat)
  /-- Updates come before the observations are handed over. -/
  | lateFlush (size interval : Nat)
  deriving DecidableEq, Repr

/-- The wording of an inconsistency. -/
def Inconsistency.phrase : Inconsistency → String
  | startWithoutLength => "start_timestep needs num_timesteps to form a horizon"
  | sampleExceedsBatch sample batch =>
    "sample_size " ++ toString sample ++ " exceeds batch_size " ++ toString batch
  | unprioritized memory => "apex requires prioritized_replay memory, got " ++ memory
  | optimizerWithoutNetwork => "value function optimizer given without value_function_spec"
  | batchExceedsCapacity batch capacity =>
    "batch_size " ++ toString batch ++ " exceeds memory capacity " ++ toString capacity
      ++ "; a full batch can never be stored"
  | neverFires awaited capacity =>
    "updates wait for " ++ toString awaited ++ " buffered records but memory holds at most "
      ++ toString capacity ++ "; updates will never fire"
  | overwritten interval capacity =>
    "update_interval " ++ toString interval ++ " exceeds ring buffer capacity "
      ++ toString capacity ++ "; records are overwritten before they are learned from"
  | lateFlush size interval =>
    "observe buffer_size " ++ toString size ++ " exceeds update_interval " ++ toString interval
      ++ "; updates run before the buffer is flushed"

/-- Why a document is refused. -/
inductive Cause where
  /-- No kind of schedule has this name. -/
  | unknownScheduleKind (name : String)
  /-- No kind of memory has this name. -/
  | unsupportedMemory (name : String)
  /-- Memory cannot have this capacity. -/
  | capacity (defect : CapacityDefect)
  /-- An interval is no count, or zero. -/
  | interval (written : Value)
  /-- Training cannot run on several GPUs. -/
  | devices (shortage : Shortage)
  /-- A field that is needed is absent or null. -/
  | missing
  /-- A field belongs to other types of agents only. -/
  | foreign (agent : String)
  /-- No type of agent has this name. -/
  | unsupportedAgent (name : String)
  /-- A field is none that is read here. -/
  | unknownField
  /-- A value is wrong by itself. -/
  | invalid (defect : Defect)
  /-- Two items share a scope. -/
  | duplicateScope (scope : String)
  /-- Fields do not go together. -/
  | inconsistent (inconsistency : Inconsistency)
  /-- What is asked for does not fit into a list of any length. No document is refused for this: the
  program panics there. -/
  | overflow

/-- The wording of a cause. -/
def Cause.phrase : Cause → String
  | unknownScheduleKind name => "unknown schedule kind `" ++ name ++ "`"
  | unsupportedMemory name => "unsupported memory type `" ++ name ++ "`"
  | capacity defect => "invalid capacity: " ++ defect.phrase
  | interval written => "interval must be a positive integer, got " ++ written.compact
  | devices shortage => "insufficient devices: " ++ shortage.phrase
  | missing => "missing required field"
  | foreign agent => "field is not allowed for agent type `" ++ agent ++ "`"
  | unsupportedAgent name => "unsupported agent type `" ++ name ++ "`"
  | unknownField => "unknown field"
  | invalid defect => defect.phrase
  | duplicateScope scope => "duplicate scope `" ++ scope ++ "`"
  | inconsistent inconsistency => inconsistency.phrase
  | overflow => "capacity overflow"

/-- A cause at a place. -/
structure Fault where
  /-- The place. -/
  path : Path
  /-- The cause. -/
  cause : Cause

namespace Fault

/-- The text of a fault. -/
def message (f : Fault) : String := f.path.text ++ ": " ++ f.cause.phrase

/-- A value at a place is wrong by itself. -/
def invalid (path : Path) (defect : Defect) : Fault := ⟨path, .invalid defect⟩

end Fault

end Regimen
