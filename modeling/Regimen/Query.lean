import Regimen.Schedule.Decoding

/-!
# Questions to a section

Every way to read a section, as data: a `Query` is one question, and `Query.ask` puts it. Only
`Query.rest`, and the end of the section, depend on what was asked before; all other answers depend
on the object alone.
-/

namespace Regimen

/-- A question to a section. -/
inductive Query where
  /-- Where the section stands. -/
  | place
  /-- Where the value under a key stands. -/
  | placeOf (key : String)
  /-- Whether the key is there and not null; it does not count as asked for. -/
  | contains (key : String)
  /-- The value under a key, if there is one. -/
  | value? (key : String)
  /-- The value under a key. -/
  | value (key : String)
  /-- The object under a key, if there is one. -/
  | object? (key : String)
  /-- The object under a key. -/
  | object (key : String)
  /-- The text under a key, if there is one. -/
  | text? (key : String)
  /-- The text under a key. -/
  | text (key : String)
  /-- The truth value under a key, if there is one. -/
  | boolean? (key : String)
  /-- The number under a key, if there is one. -/
  | number? (key : String)
  /-- The count under a key, if there is one. -/
  | count? (key : String)
  /-- The interval under a key, if there is one. -/
  | interval? (key : String)
  /-- The interval under a key. -/
  | interval (key : String)
  /-- The schedule under a key, if there is one. -/
  | schedule? (key : String)
  /-- The schedule under a key. -/
  | schedule (key : String)
  /-- The entries that were not asked for. -/
  | rest
  /-- Whether none of the keys is there, for an agent that may not have them. -/
  | forbid (keys : List String) (agent : String)
  deriving DecidableEq

/-- What a section answers. -/
inductive Answer where
  /-- A place. -/
  | place (path : Path)
  /-- Yes or no. -/
  | truth (b : Bool)
  /-- A value. -/
  | value (v : Option Value)
  /-- Where an object stands, and what it holds. -/
  | object (o : Option (Path × Entries))
  /-- A text. -/
  | text (s : Option String)
  /-- A truth value. -/
  | boolean (b : Option Bool)
  /-- A number. -/
  | number (x : Option Float)
  /-- A count or an interval. -/
  | count (n : Option Nat)
  /-- A schedule. -/
  | schedule (s : Option Schedule)
  /-- Entries. -/
  | entries (rest : Entries)

namespace Query

/-- The object at a place, read as a section of its own. -/
def nested : Decoder (Path × Entries) :=
  Reading.decode do return ((← get).path, ← Reading.rest)

/-- Put the question. -/
def ask : Query → Reading Answer
  | place => do return .place (← get).path
  | placeOf key => do return .place (← Reading.placeOf key)
  | contains key => do return .truth ((← get).value? key).isSome
  | value? key => do return .value (← Reading.field? key Decoder.raw)
  | value key => do return .value (some (← Reading.field key Decoder.raw))
  | object? key => do return .object (← Reading.field? key nested)
  | object key => do return .object (some (← Reading.field key nested))
  | text? key => do return .text (← Reading.field? key Decoder.text)
  | text key => do return .text (some (← Reading.field key Decoder.text))
  | boolean? key => do return .boolean (← Reading.field? key Decoder.boolean)
  | number? key => do return .number (← Reading.field? key Decoder.number)
  | count? key => do return .count (← Reading.field? key Decoder.count)
  | interval? key => do return .count (← Reading.field? key Decoder.interval)
  | interval key => do return .count (some (← Reading.field key Decoder.interval))
  | schedule? key => do return .schedule (← Reading.field? key Schedule.decode)
  | schedule key => do return .schedule (some (← Reading.field key Schedule.decode))
  | rest => do return .entries (← Reading.rest)
  | forbid keys agent => do
    Reading.forbid keys agent
    return .truth true

/-- Put questions one after another, whether they are answered or not. -/
def askAll : List Query → Section → List (Except Fault Answer) × Section
  | [], s => ([], s)
  | q :: others, s =>
    let (answers, last) := askAll others (q.ask.after s)
    (q.ask.outcome s :: answers, last)

end Query

end Regimen
