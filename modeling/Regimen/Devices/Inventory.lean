import Regimen.Document.Value
import Regimen.Text

/-!
# Inventory

How many GPUs a machine has. Two settings of the environment say so: one gives the number, the other
lists the devices that may be seen. A number that cannot be read gives way to the list, and without
a list there is no GPU.
-/

namespace Regimen

namespace Inventory

/-- The part of a list of devices names a device: something stands there that is not negative. -/
def NamesDevice (part : List Char) : Prop :=
  (Text.trim part).head?.any (· ≠ '-')

instance (part : List Char) : Decidable (NamesDevice part) := inferInstanceAs (Decidable (_ = _))

/-- The number of devices that may be seen. The first part that names none ends the list. -/
def visibleDevices (list : String) : Nat :=
  ((Text.parts list.toList).takeWhile fun part => decide (NamesDevice part)).length

/-- The number that a run of digits writes, after an optional plus sign, if it is a count. -/
def number? (cs : List Char) : Option Nat :=
  let digits := match cs with
    | '+' :: ds => ds
    | ds => ds
  if Text.IsDigits digits ∧ Text.ofDigits digits ≤ maxCount then some (Text.ofDigits digits) else none

/-- The number of GPUs that the environment gives, by a number or by a list of visible devices. -/
def ofEnvironment (gpus visible : Option String) : Nat :=
  match gpus.bind fun text => number? (Text.trim text.toList) with
  | some n => n
  | none => (visible.map visibleDevices).getD 0

end Inventory

end Regimen
