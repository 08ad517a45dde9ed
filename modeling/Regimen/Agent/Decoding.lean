import Regimen.Agent.Basic

/-!
# Agents in documents

`Agent.decode` reads a whole document. Its parts are read one after another, each of them completely,
and the first fault decides. Two checks look across the parts: an agent that learns from priorities
needs a memory with priorities, and at the end `concerns` lists what does not go together. None of
it stops the training, but a batch that memory can never hold refuses the document where the options
say so.
-/

namespace Regimen

/-- What becomes of a batch that is greater than memory. -/
inductive OverfullBatch where
  /-- The agent carries a warning. -/
  | warn
  /-- The document is refused. -/
  | reject
  deriving DecidableEq, Repr

/-- How a document is read, and for which machine. -/
structure Options where
  /-- What becomes of unknown fields. -/
  unknownFields : UnknownFields
  /-- What becomes of a batch that is greater than memory. -/
  overfullBatch : OverfullBatch
  /-- The number of GPUs of the machine. -/
  gpus : Nat
  deriving DecidableEq, Repr

/-- Unknown fields are refused, batches are warned of, and there is no GPU. -/
def Options.standard : Options := ⟨.reject, .warn, 0⟩

namespace Agent

/-- The type of an agent, by its name. -/
def Kind.decode : Decoder Kind := fun path v => do
  let name ← Decoder.text path v
  match ofName? name with
  | some kind => return kind
  | none => throw ⟨path, .unsupportedAgent name⟩

/-- The size of the buffer that observations are handed over in. -/
def bufferReading (policy : UnknownFields) : Reading (Option Nat) := do
  let size ← Reading.field? "buffer_size" Decoder.count
  Reading.close policy
  return size

/-- The settings of an agent that learns values. -/
def valueReading (policy : UnknownFields) : Reading ValueSettings := do
  let steps ← Reading.fieldD "n_step" Decoder.interval 1
  let exploration ← Reading.field? "exploration_spec" (Exploration.reading policy).decode
  let dueling ← Reading.fieldD "dueling_q" Decoder.boolean true
  let double ← Reading.fieldD "double_q" Decoder.boolean true
  let huber ← Reading.fieldD "huber_loss" Decoder.boolean false
  return { dueling, double, huber, steps, exploration }

/-- The settings of an agent that learns a policy. -/
def policyReading (policy : UnknownFields) : Reading PolicySettings := do
  let clipRatio ←
    Reading.fieldD "clip_ratio" (Schedule.decodeIn .positiveUnit) (.constant 0.2)
  let gaeLambda ← Reading.fieldD "gae_lambda" (Decoder.numberIn .unit (some "gae_lambda")) 1.0
  let entropyWeight ← Reading.field? "weight_entropy" (Schedule.decodeIn .nonNegative)
  let valueNetwork ← Reading.field? "value_function_spec" Network.decode
  let valueOptimizer ←
    Reading.field? "value_function_optimizer_spec" (Optimizer.reading policy).decode
  Reading.ensure (valueOptimizer.isSome → valueNetwork.isSome)
    ⟨← Reading.placeOf "value_function_optimizer_spec", .inconsistent .optimizerWithoutNetwork⟩
  let standardize ← Reading.fieldD "standardize_advantages" Decoder.boolean false
  let wholeEpisodes ← Reading.fieldD "sample_episodes" Decoder.boolean true
  return { clipRatio, gaeLambda, entropyWeight, standardize, wholeEpisodes, valueNetwork,
           valueOptimizer }

/-- The settings of an agent's own type. Learning from priorities takes a memory that has them. -/
def variantReading (policy : UnknownFields) (memory : Memory) : Kind → Reading Variant
  | .dqn => do return .dqn (← valueReading policy)
  | .apex => do
    Reading.ensure memory.kind.IsPrioritized
      ⟨(← Reading.placeOf "memory_spec").key "type", .inconsistent (.unprioritized memory.kind.name)⟩
    return .apex (← valueReading policy)
  | .ppo => do return .ppo (← policyReading policy)

/-- What does not go together in the settings of an agent. -/
def concerns (memory : Memory) (cadence : Cadence) (buffer : Option Nat) : List Warning :=
  let update := Path.root.key "update_spec"
  let warn (condition : Prop) [Decidable condition] (path : Path) (i : Inconsistency) :
      List Warning := if condition then [⟨path, i⟩] else []
  warn (memory.capacity < cadence.batch) (update.key "batch_size")
    (.batchExceedsCapacity cadence.batch memory.capacity)
  ++ warn (memory.capacity < cadence.threshold ∧ cadence.batch < cadence.threshold) update
    (.neverFires cadence.threshold memory.capacity)
  ++ warn (memory.kind = .ringBuffer ∧ memory.capacity < cadence.interval)
    (update.key "update_interval") (.overwritten cadence.interval memory.capacity)
  ++ warn (∃ size ∈ buffer, cadence.interval < size) ((Path.root.key "observe_spec").key "buffer_size")
    (.lateFlush (buffer.getD 0) cadence.interval)

/-- The warnings that an agent carries, unless the options refuse its batch. -/
def checked (options : Options) (memory : Memory) (cadence : Cadence) (buffer : Option Nat) :
    Except Fault (List Warning) :=
  if options.overfullBatch = .reject ∧ memory.capacity < cadence.batch then
    .error ⟨(Path.root.key "update_spec").key "batch_size",
      .inconsistent (.batchExceedsCapacity cadence.batch memory.capacity)⟩
  else .ok (concerns memory cadence buffer)

/-- The agent that a section describes. -/
def reading (options : Options) : Reading Agent := do
  let policy := options.unknownFields
  let kind ← Reading.field "type" Kind.decode
  Reading.forbid kind.foreignFields kind.name
  let memory ← Reading.field "memory_spec" (Memory.reading policy).decode
  let preprocessing ← Reading.fieldD "preprocessing_spec" Preprocessor.decodeAll []
  let network ← Reading.field "network_spec" Network.decode
  let optimizer ← Reading.field "optimizer_spec" (Optimizer.reading policy).decode
  let execution ←
    Reading.fieldD "execution_spec" (Execution.reading options.gpus policy).decode .standard
  let buffer ← Reading.fieldD "observe_spec" (bufferReading policy).decode none
  let cadence ← Reading.field "update_spec"
    (Cadence.reading kind.family kind.name buffer policy).decode
  let discount ← Reading.fieldD "discount" (Decoder.numberIn .unit (some "discount"))
    kind.defaultDiscount
  let variant ← variantReading policy memory kind
  Reading.close policy
  let warnings ← Attempt.ofExcept (checked options memory cadence buffer)
  return { variant, discount, memory, preprocessing, network, optimizer, execution, cadence, warnings }

/-- The agent that a document describes. -/
def decode (options : Options) (document : Value) : Except Fault Agent :=
  (reading options).decode .root document

end Agent

end Regimen
