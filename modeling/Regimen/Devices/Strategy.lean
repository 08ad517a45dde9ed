import Regimen.Section

/-!
# Devices

How training is spread over devices: it runs on one, on several GPUs in step, or as a map says.
Training on several GPUs needs them to be enabled and to be there; where a machine has fewer than
requested, something else may stand in for the missing ones.
-/

namespace Regimen

/-- One of the devices that training on several GPUs is spread over. -/
structure Slot where
  /-- The number of the device. -/
  index : Nat
  /-- Something else stands in for the GPU. -/
  fake : Bool
  deriving DecidableEq, Repr

/-- The name of the device. -/
def Slot.name (s : Slot) : String :=
  (if s.fake then "/device:CPU:" else "/device:GPU:") ++ toString s.index

/-- How training is spread over devices. -/
inductive Strategy where
  /-- It runs on one device. -/
  | single
  /-- It runs on several GPUs in step. -/
  | multiGpu (slots : List Slot)
  /-- It is spread by hand: devices under scopes. -/
  | custom (devices : List (String × String))
  deriving DecidableEq

namespace Strategy

/-- The devices that training on several GPUs is spread over. -/
def slots : Strategy → List Slot
  | multiGpu slots => slots
  | _ => []

/-- The number of workers. -/
def workers : Strategy → Nat
  | multiGpu slots => slots.length
  | _ => 1

/-- The number of devices that stand in for a GPU. -/
def fakes (s : Strategy) : Nat := s.slots.countP Slot.fake

end Strategy

/-! ### Strategies in documents -/

/-- The greatest number of slots that a list has room for: a slot takes 16 bytes, and no list takes
more than 2 ^ 63 - 1 of them. -/
def Slot.maxNumber : Nat := 9223372036854775807 / 16

/-- The slots for so many GPUs on a machine with so many: those beyond are stood in for. -/
def Slot.allot (requested available : Nat) : List Slot :=
  (List.range requested).map fun i => ⟨i, min requested available ≤ i⟩

/-- What a document says about GPUs. -/
structure GpuRequest where
  /-- They may be used. -/
  enabled : Bool
  /-- How many are requested. -/
  number : Nat
  /-- Missing ones may be stood in for. -/
  standIns : Bool
  deriving DecidableEq, Repr

namespace GpuRequest

/-- What a section says about GPUs; nothing is requested unless it says so. -/
def reading (policy : UnknownFields) : Reading GpuRequest := do
  let enabled ← Reading.fieldD "gpus_enabled" Decoder.boolean false
  let number ← Reading.fieldD "max_usable_gpus" Decoder.count 0
  let standIns ← Reading.fieldD "fake_gpus_if_necessary" Decoder.boolean false
  Reading.close policy
  return { enabled, number, standIns }

/-- The slots for a request on a machine with so many GPUs. A request that can be met and is too long
for a list is not refused: collecting the slots panics. -/
def slots (path : Path) (r : GpuRequest) (available : Nat) : Except Fault (List Slot) :=
  if ¬r.enabled then .error ⟨path.key "gpus_enabled", .devices .disabled⟩
  else if r.number = 0 then .error ⟨path.key "max_usable_gpus", .devices .noneRequested⟩
  else if maxCount < r.number then .error (.invalid (path.key "max_usable_gpus") .tooManyDevices)
  else if available < r.number ∧ ¬r.standIns then
    .error ⟨path.key "max_usable_gpus", .devices (.tooFew r.number available)⟩
  else if Slot.maxNumber < r.number then .error ⟨path.key "max_usable_gpus", .overflow⟩
  else .ok (Slot.allot r.number available)

/-- The slots that a document describes, on a machine with so many GPUs. -/
def decode (available : Nat) (policy : UnknownFields) : Decoder (List Slot) := fun path v => do
  (← (reading policy).decode path v).slots path available

end GpuRequest

namespace Strategy

/-- A device, which is a text. -/
def device : Decoder String := Decoder.orDefect Value.text? (.unexpectedIn "device" .text)

/-- The devices under scopes, all of them texts. -/
def devicesOf (path : Path) (entries : Entries) : Except Fault (List (String × String)) :=
  entries.mapM fun (scope, v) => do return (scope, ← device (path.key scope) v)

/-- A map of devices with at least one entry. -/
def deviceMap : Decoder (List (String × String)) := fun path v => do
  let entries ← Reading.rest.decode path v
  let devices ← devicesOf path entries
  if devices = [] then throw (.invalid path .noDevices)
  return devices

/-- How training is spread. The description of the GPUs may stand there under every strategy. -/
def reading (available : Nat) (policy : UnknownFields) : Reading Strategy := do
  match ← Reading.fieldD "device_strategy" Decoder.text "single" with
  | "single" | "default" =>
    let _ ← Reading.field? "gpu_spec" Decoder.raw
    return .single
  | "multi_gpu_sync" =>
    match ← Reading.field? "gpu_spec" (GpuRequest.decode available policy) with
    | some slots => return .multiGpu slots
    | none => Reading.fail ⟨← Reading.placeOf "gpu_spec", .devices .undescribed⟩
  | "custom" =>
    let _ ← Reading.field? "gpu_spec" Decoder.raw
    return .custom (← Reading.field "device_map" deviceMap)
  | name =>
    Reading.fail (.invalid (← Reading.placeOf "device_strategy") (.unsupportedStrategy name))

end Strategy

end Regimen
