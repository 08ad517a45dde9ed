import Regimen.Section

/-!
# Memory

An agent learns from the records that its memory holds. A memory has a capacity, and its kind says
which record gives way once the capacity is reached. How records are kept is the business of whoever
runs the agent; what matters here is how many there are (`Memory.held`).
-/

namespace Regimen

/-- How a memory keeps records. -/
inductive Memory.Kind where
  /-- In no particular order. -/
  | replay
  /-- In a ring, where each record takes the place of the oldest. -/
  | ringBuffer
  /-- By priority. -/
  | prioritizedReplay (alpha beta : Float)
  deriving DecidableEq

/-- Which record gives way in a full memory. -/
inductive Memory.Eviction where
  /-- The oldest. -/
  | oldest
  /-- Any. -/
  | unordered
  /-- The one with the lowest priority. -/
  | lowestPriority
  deriving DecidableEq, Repr

/-- The memory of an agent. -/
structure Memory where
  /-- How records are kept. -/
  kind : Memory.Kind
  /-- How many records there can be. -/
  capacity : Nat
  deriving DecidableEq

namespace Memory

/-- The name of a kind of memory. -/
def Kind.name : Kind → String
  | replay => "replay"
  | ringBuffer => "ring_buffer"
  | prioritizedReplay _ _ => "prioritized_replay"

/-- Records are kept by priority. -/
def Kind.IsPrioritized (kind : Kind) : Prop := ∃ alpha beta, kind = prioritizedReplay alpha beta

instance : (kind : Kind) → Decidable kind.IsPrioritized
  | .replay => isFalse (by simp [Kind.IsPrioritized])
  | .ringBuffer => isFalse (by simp [Kind.IsPrioritized])
  | .prioritizedReplay alpha beta => isTrue ⟨alpha, beta, rfl⟩

/-- Which record gives way once the memory is full. -/
def eviction (m : Memory) : Eviction :=
  match m.kind with
  | .ringBuffer => .oldest
  | .replay => .unordered
  | .prioritizedReplay _ _ => .lowestPriority

/-- How many records the memory holds when so many were put into it. -/
def held (m : Memory) (observed : Nat) : Nat := min observed m.capacity

/-! ### Memories in documents -/

/-- The kind of a memory, which the fields of its name follow. -/
def kindReading : Reading Kind := do
  match ← Reading.field "type" Decoder.text with
  | "replay" => return .replay
  | "ring_buffer" => return .ringBuffer
  | "prioritized_replay" =>
    let alpha ← Reading.fieldD "alpha" (Decoder.numberIn .nonNegative none) 1.0
    let beta ← Reading.fieldD "beta" (Decoder.numberIn .unit none) 0.0
    return .prioritizedReplay alpha beta
  | name => Reading.fail ⟨← Reading.placeOf "type", .unsupportedMemory name⟩

/-- The capacity of a memory. -/
def capacity? : Decoder Nat := fun path v =>
  match v.count? with
  | none => .error ⟨path, .capacity .noCount⟩
  | some 0 => .error ⟨path, .capacity .zero⟩
  | some n => .ok n

/-- The memory that a section describes. -/
def reading (policy : UnknownFields) : Reading Memory := do
  let kind ← kindReading
  let capacity ← Reading.field "capacity" capacity?
  Reading.close policy
  return ⟨kind, capacity⟩

end Memory

end Regimen
