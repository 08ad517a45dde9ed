import Regimen.Settings.Descriptors

/-!
# Networks and preprocessing

A network is a stack of layers, and observations go through a chain of preprocessors before they
reach it. What a descriptor holds beyond the fields that are read here is passed on unread.
-/

namespace Regimen

/-- The descriptor of a layer. -/
structure Layer where
  /-- The type of the layer. -/
  kind : String
  /-- The number of units. -/
  units : Option Nat
  /-- The name of the activation function. -/
  activation : Option String
  /-- The scope. -/
  scope : Option String
  /-- All other entries of the descriptor. -/
  params : Entries

/-- A stack of layers. -/
structure Network where
  /-- The layers, first to last. -/
  layers : List Layer

/-- The descriptor of a preprocessor. -/
structure Preprocessor where
  /-- The type of the preprocessor. -/
  kind : String
  /-- The scope. -/
  scope : Option String
  /-- All other entries of the descriptor. -/
  params : Entries

namespace Network

/-- The scopes of the layers that have one, first to last. -/
def scopes (n : Network) : List String := n.layers.filterMap Layer.scope

/-- The layer with a scope. -/
def layer? (n : Network) (scope : String) : Option Layer :=
  n.layers.find? fun l => l.scope = some scope

end Network

/-! ### Networks in documents -/

/-- The layer that a section describes. -/
def Layer.reading (taken : List String) : Reading Layer := do
  let kind ← Reading.field "type" Decoder.text
  let units ← Reading.field? "units"
    (Decoder.orDefect Value.positive? (.unexpectedIn "units" .positiveCount))
  let activation ← Reading.field? "activation" Decoder.text
  let scope ← scopeReading taken
  let params ← Reading.rest
  Reading.close .reject
  return { kind, units, activation, scope, params }

/-- The preprocessor that a section describes. -/
def Preprocessor.reading (taken : List String) : Reading Preprocessor := do
  let kind ← Reading.field "type" Decoder.text
  let scope ← scopeReading taken
  let params ← Reading.rest
  Reading.close .reject
  return { kind, scope, params }

/-- A network: a list of layers with at least one. -/
def Network.decode : Decoder Network := fun path v => do
  if let .list [] := v then
    throw (.invalid path .noLayers)
  return ⟨← descriptors Layer.reading Layer.scope path v⟩

/-- A chain of preprocessors, which may be empty. -/
def Preprocessor.decodeAll : Decoder (List Preprocessor) :=
  descriptors Preprocessor.reading Preprocessor.scope

end Regimen
