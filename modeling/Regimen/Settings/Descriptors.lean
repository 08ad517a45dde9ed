import Regimen.Section

/-!
# Descriptors

Some parts of an agent are lists of descriptors: objects with a type, perhaps a scope by which others
refer to them, and whatever else the type needs. Within a list no two descriptors have the same
scope, and it is the later one that is at fault.
-/

namespace Regimen

/-- The scope of a descriptor, which may not be one of those that are taken. -/
def scopeReading (taken : List String) : Reading (Option String) := do
  let scope ← Reading.field? "scope" Decoder.text
  if let some s := scope then
    Reading.ensure (s ∉ taken) ⟨← Reading.placeOf "scope", .duplicateScope s⟩
  return scope

/-- The descriptors of a list, from the one at `position` on. Each is read as a section in which the
scopes of those before it are taken. -/
def descriptorsFrom {α : Type} (reading : List String → Reading α) (scope : α → Option String)
    (path : Path) (position : Nat) (taken : List String) : List Value → Except Fault (List α)
  | [] => .ok []
  | v :: rest => do
    let a ← (reading taken).decode (path.item position) v
    let others ← descriptorsFrom reading scope path (position + 1) ((scope a).toList ++ taken) rest
    return a :: others

/-- A list of descriptors. -/
def descriptors {α : Type} (reading : List String → Reading α) (scope : α → Option String) :
    Decoder (List α) := fun path v =>
  match v with
  | .list items => descriptorsFrom reading scope path 0 [] items
  | _ => .error (.invalid path (.unexpected .descriptors))

end Regimen
