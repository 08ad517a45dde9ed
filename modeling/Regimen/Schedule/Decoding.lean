import Regimen.Schedule.Basic
import Regimen.Section

/-!
# Schedules in documents

A schedule is written in three ways: as a number, which is constant; as a triple of a kind and the
two ends; and as an object, which alone can give a window. An object may hold no key but those of
`Schedule.fields`, whatever happens to unknown fields elsewhere, and null is a value there like any
other.
-/

namespace Regimen.Schedule

/-- The keys of a schedule that is written as an object. -/
def fields : List String := ["type", "value", "from", "to", "start_timestep", "num_timesteps"]

/-- The kind has the name of the constant schedules. -/
def IsConstantKind (kind : String) : Prop := kind = "constant" ∨ kind = "constant_decay"

instance (kind : String) : Decidable (IsConstantKind kind) :=
  inferInstanceAs (Decidable (_ ∨ _))

/-- An end of a schedule, or its only value. -/
def endpoint : Decoder Float := fun path v =>
  match v.float? with
  | some x => if x.isFinite then .ok x else .error (.invalid path (.notFinite x))
  | none => .error (.invalid path (.unexpected .number))

/-- The two ends of a constant schedule are the same number, but for rounding. -/
def SameEnds (initial final : Float) : Prop :=
  (initial - final).abs ≤ 2.220446049250313e-16 * greater initial.abs 1.0

instance (initial final : Float) : Decidable (SameEnds initial final) :=
  inferInstanceAs (Decidable (_ ≤ _))

/-- Some factor leads from one end to the other: neither is zero, and both have the same sign. -/
def Proportional (initial final : Float) : Prop :=
  ¬(initial == 0.0) ∧ ¬(final == 0.0) ∧ (initial < 0.0 ↔ final < 0.0)

instance (initial final : Float) : Decidable (Proportional initial final) :=
  inferInstanceAs (Decidable (_ ∧ _))

/-- The schedule of a kind between two ends. -/
def between (path : Path) (kind : String) (initial final : Float) (window : Option Window) :
    Except Fault Schedule :=
  if IsConstantKind kind then
    if SameEnds initial final then .ok (.constant initial)
    else .error (.invalid path .unequalConstant)
  else
    match Curve.ofName? kind with
    | none => .error ⟨path, .unknownScheduleKind kind⟩
    | some curve =>
      if curve = .exponential ∧ ¬Proportional initial final then
        .error (.invalid path .exponentialEnds)
      else .ok (.curved curve initial final window)

/-- A schedule that is written as a triple of the kind, the initial and the final value. -/
def ofTriple (path : Path) : List Value → Except Fault Schedule
  | [kind, initial, final] => do
    let kind ← Decoder.orDefect Value.text? (.unexpectedIn "schedule kind" .text)
      (path.element 0) kind
    let initial ← endpoint (path.element 1) initial
    let final ← endpoint (path.element 2) final
    between path kind initial final none
  | items => .error (.invalid path (.tripleLength items.length))

/-- The meaning of the value under a key, which has to be there; null is there. -/
def present {α : Type} (path : Path) (entries : Entries) (key : String) (decode : Decoder α) :
    Except Fault α :=
  match entries.lookup key with
  | some v => decode (path.key key) v
  | none => .error ⟨path.key key, .missing⟩

/-- The window that an object gives. It has a length; its start is zero unless given. -/
def windowOf (path : Path) (entries : Entries) : Except Fault (Option Window) :=
  match entries.lookup "num_timesteps", entries.lookup "start_timestep" with
  | none, none => .ok none
  | none, some _ => .error ⟨path.key "start_timestep", .inconsistent .startWithoutLength⟩
  | some length, none => do
    return some ⟨0, ← Decoder.interval (path.key "num_timesteps") length⟩
  | some length, some start => do
    let length ← Decoder.interval (path.key "num_timesteps") length
    let start ← Decoder.count (path.key "start_timestep") start
    return some ⟨start, length⟩

/-- A schedule that is written as an object. -/
def ofObject (path : Path) (entries : Entries) : Except Fault Schedule := do
  if let some key := entries.keys.find? (· ∉ fields) then
    throw ⟨path.key key, .unknownField⟩
  let kind ← present path entries "type" Decoder.text
  if IsConstantKind kind then
    return .constant (← present path entries "value" endpoint)
  let initial ← present path entries "from" endpoint
  let final ← present path entries "to" endpoint
  between path kind initial final (← windowOf path entries)

/-- A schedule, in any of the ways to write one. -/
def decode : Decoder Schedule := fun path v =>
  match v with
  | .number _ => do return .constant (← endpoint path v)
  | .list items => ofTriple path items
  | .object entries => ofObject path entries
  | _ => .error (.invalid path .scheduleForm)

/-- The schedule itself, if its values lie in a range. -/
def held (range : Range) (path : Path) (s : Schedule) : Except Fault Schedule :=
  if s.Within range then .ok s
  else .error (.invalid path (.scheduleOutside s.least s.greatest range))

/-- A schedule whose values lie in a range. -/
def decodeIn (range : Range) : Decoder Schedule := fun path v => do
  held range path (← decode path v)

end Regimen.Schedule
