import Regimen.Attempt
import Regimen.Fault

/-!
# Sections

A section is an object of a document that is read field by field. It remembers the keys that were
asked for, so that what nobody asked for can be passed on (`Reading.rest`) or be refused
(`Reading.close`).

A `Reading` is a computation on a section. It keeps what it has asked for also when it fails. A
`Decoder` gives the value at a place its meaning; `Reading.decode` makes a decoder for objects from
a reading. A field that is null is a field that is absent, except to `Reading.forbid`, which looks
at the keys alone.
-/

namespace Regimen

/-- What becomes of a field that nobody asks for. -/
inductive UnknownFields where
  /-- The document is refused. -/
  | reject
  /-- The field is passed over. -/
  | ignore
  deriving DecidableEq, Repr

/-- The meaning of the value at a place, or why it has none. -/
abbrev Decoder (α : Type) := Path → Value → Except Fault α

/-- An object that is being read. -/
structure Section where
  /-- Where the object stands. -/
  path : Path
  /-- What it holds. -/
  entries : Entries
  /-- The keys that were asked for. -/
  asked : List String

namespace Section

/-- The section of an object that nothing was asked of yet. -/
def of (path : Path) : Value → Except Fault Section
  | .object entries => .ok ⟨path, entries, []⟩
  | _ => .error (.invalid path.orDocument (.unexpected .object))

/-- The value under a key, unless it is null. -/
def value? (s : Section) (key : String) : Option Value :=
  (s.entries.lookup key).filter fun v => !v.isNull

/-- A key is asked for. -/
def ask (s : Section) (key : String) : Section := { s with asked := key :: s.asked }

/-- The entries that were not asked for, in the order of the document. -/
def unasked (s : Section) : Entries := s.entries.filter fun e => e.1 ∉ s.asked

/-- Every key is asked for. -/
def askAll (s : Section) : Section := { s with asked := s.entries.keys ++ s.asked }

/-- The meaning of the value under a key; none when the key is absent or null. -/
def read? {α : Type} (s : Section) (key : String) (decode : Decoder α) : Except Fault (Option α) :=
  match s.value? key with
  | none => .ok none
  | some v => (decode (s.path.key key) v).map some

/-- The meaning of the value under a key, which has to be there. -/
def read {α : Type} (s : Section) (key : String) (decode : Decoder α) : Except Fault α :=
  match s.value? key with
  | none => .error ⟨s.path.key key, .missing⟩
  | some v => decode (s.path.key key) v

/-- None of the keys stands in the section, not even with null. -/
def without (s : Section) (keys : List String) (agent : String) : Except Fault Unit :=
  match keys.find? (· ∈ s.entries.keys) with
  | some key => .error ⟨s.path.key key, .foreign agent⟩
  | none => .ok ()

/-- Every key was asked for, unless unknown fields are ignored. -/
def closed (s : Section) (policy : UnknownFields) : Except Fault Unit :=
  match policy, s.unasked with
  | .reject, (key, _) :: _ => .error ⟨s.path.key key, .unknownField⟩
  | _, _ => .ok ()

end Section

/-- A computation on a section, which may fail; what it asked for stays asked for. -/
abbrev Reading (α : Type) := Attempt Fault Section α

namespace Reading

variable {α : Type}

/-- The reading ends with a fault. -/
def fail (f : Fault) : Reading α := throw f

/-- The reading goes on only if a condition holds. -/
def ensure (condition : Prop) [Decidable condition] (f : Fault) : Reading Unit :=
  Attempt.ofExcept (if condition then .ok () else .error f)

/-- Where the value under a key stands, or would stand. -/
def placeOf (key : String) : Reading Path := do return (← get).path.key key

/-- The meaning of the value under a key; none when the key is absent or null. -/
def field? (key : String) (decode : Decoder α) : Reading (Option α) := do
  let s ← get
  set (s.ask key)
  Attempt.ofExcept (s.read? key decode)

/-- The meaning of the value under a key, which has to be there. -/
def field (key : String) (decode : Decoder α) : Reading α := do
  let s ← get
  set (s.ask key)
  Attempt.ofExcept (s.read key decode)

/-- The meaning of the value under a key, or a default. -/
def fieldD (key : String) (decode : Decoder α) (default : α) : Reading α := do
  return (← field? key decode).getD default

/-- The entries that were not asked for; after that, every key was. -/
def rest : Reading Entries := do
  let s ← get
  set s.askAll
  return s.unasked

/-- None of the keys may stand in the section. They belong to other agents than the given one. -/
def forbid (keys : List String) (agent : String) : Reading Unit := do
  Attempt.ofExcept ((← get).without keys agent)

/-- The end of a section. Unless unknown fields are ignored, every key has to have been asked for. -/
def close (policy : UnknownFields) : Reading Unit := do
  Attempt.ofExcept ((← get).closed policy)

/-! What the readings answer is a function of the section, and they change no more than which keys
were asked for. -/

section Run

variable (s : Section) (key : String) (decode : Decoder α)

@[simp] theorem run_placeOf : (placeOf key).run s = .ok (s.path.key key) s := rfl

@[simp] theorem run_field? :
    (field? key decode).run s = (Attempt.ofExcept (s.read? key decode)).run (s.ask key) := rfl

@[simp] theorem run_field :
    (field key decode).run s = (Attempt.ofExcept (s.read key decode)).run (s.ask key) := rfl

@[simp] theorem run_rest : rest.run s = .ok s.unasked s.askAll := rfl

@[simp] theorem run_forbid (keys : List String) (agent : String) :
    (forbid keys agent).run s = (Attempt.ofExcept (s.without keys agent)).run s := rfl

@[simp] theorem run_close (policy : UnknownFields) :
    (close policy).run s = (Attempt.ofExcept (s.closed policy)).run s := rfl

end Run

/-- The decoder that reads an object as a section. -/
def decode (r : Reading α) : Decoder α := fun path v => do
  r.outcome (← Section.of path v)

end Reading

/-! ### Decoders of plain values -/

namespace Decoder

/-- The value itself. -/
def raw : Decoder Value := fun _ v => .ok v

/-- What `read` makes of the value; the value has a defect when that is nothing. -/
def orDefect {α : Type} (read : Value → Option α) (defect : Defect) : Decoder α := fun path v =>
  match read v with
  | some a => .ok a
  | none => .error (.invalid path defect)

/-- A text. -/
def text : Decoder String := orDefect Value.text? (.unexpected .text)

/-- A truth value. -/
def boolean : Decoder Bool := orDefect Value.boolean? (.unexpected .boolean)

/-- A count. -/
def count : Decoder Nat := orDefect Value.count? (.unexpected .count)

/-- A number that is neither infinite nor undefined. -/
def number : Decoder Float :=
  orDefect (fun v => v.float?.filter Float.isFinite) (.unexpected .finiteNumber)

/-- A number within a range; the wording of a number outside of it may name the field. -/
def numberIn (range : Range) (field : Option String) : Decoder Float := fun path v => do
  let x ← number path v
  if range.Contains x then return x else .error (.invalid path (.outside field range))

/-- A count other than zero, where the field gives the number of steps between two events. -/
def interval : Decoder Nat := fun path v =>
  match v.positive? with
  | some n => .ok n
  | none => .error ⟨path, .interval v⟩

end Decoder

end Regimen
