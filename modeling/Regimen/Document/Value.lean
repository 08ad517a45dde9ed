/-!
# Documents

A document is a tree of values, as a settings file holds them. Two things are kept that a looser
reading would lose: a number remembers whether it was written as an integer, since `5.0` is no count,
and an object keeps its entries in the order of the document, since settings that are passed on
unread are passed on as written.
-/

namespace Regimen

/-- The greatest count that a document can give, `2 ^ 64 - 1`. -/
def maxCount : Nat := 18446744073709551615

/-- A number of a document. -/
inductive Number where
  /-- A number written without a fraction and without an exponent. -/
  | integer (n : Int)
  /-- Any other number, rounded to binary64. -/
  | decimal (x : Float)
  deriving DecidableEq

/-- The nearest binary64 number. -/
def Number.toFloat : Number → Float
  | .integer n => Float.ofInt n
  | .decimal x => x

/-- A value of a document. -/
inductive Value where
  /-- The absent value, written out. -/
  | null
  /-- A truth value. -/
  | boolean (b : Bool)
  /-- A number. -/
  | number (n : Number)
  /-- A text. -/
  | text (s : String)
  /-- A list of values. -/
  | list (items : List Value)
  /-- An object: values under keys, in the order of the document. -/
  | object (entries : List (String × Value))
  deriving Inhabited

/-- What an object holds: values under keys, in the order of the document. -/
abbrev Entries := List (String × Value)

namespace Entries

/-- The value under a key takes the place of an earlier one with the same key, or comes last. -/
def put (key : String) (value : Value) : Entries → Entries
  | [] => [(key, value)]
  | (k, v) :: rest => if k = key then (key, value) :: rest else (k, v) :: put key value rest

/-- The keys, in the order of the document. -/
def keys (entries : Entries) : List String := entries.map Prod.fst

/-- After a value was put under a key, it is found there. -/
@[simp] theorem lookup_put_self (entries : Entries) (key : String) (v : Value) :
    (put key v entries).lookup key = some v := by
  induction entries with
  | nil => simp [put]
  | cons e rest ih =>
    obtain ⟨k, w⟩ := e
    by_cases h : k = key
    · simp [put, h]
    · simp [put, h, List.lookup_cons, beq_false_of_ne (Ne.symm h), ih]

/-- Putting a value under one key changes nothing under another. -/
theorem lookup_put_of_ne {key other : String} (h : other ≠ key) (entries : Entries) (v : Value) :
    (put key v entries).lookup other = entries.lookup other := by
  induction entries with
  | nil => simp [put, List.lookup_cons, beq_false_of_ne h]
  | cons e rest ih =>
    obtain ⟨k, w⟩ := e
    by_cases hk : k = key
    · subst hk
      simp [put, List.lookup_cons, beq_false_of_ne h]
    · simp only [put, if_neg hk, List.lookup_cons, ih]

/-- A key stands in an object where a value is found under it. -/
theorem mem_keys_iff {key : String} {entries : Entries} :
    key ∈ keys entries ↔ (entries.lookup key).isSome := by
  induction entries with
  | nil => simp [keys]
  | cons e rest ih =>
    obtain ⟨k, v⟩ := e
    by_cases h : key = k
    · simp [keys, h]
    · simp only [keys] at ih
      simp [keys, h, List.lookup_cons, beq_false_of_ne h, ih]

end Entries

namespace Value

/-- The value is the written-out absent value. -/
def isNull : Value → Bool
  | .null => true
  | _ => false

/-- A count: an integer from zero to `maxCount`. -/
def count? : Value → Option Nat
  | .number (.integer (.ofNat n)) => if n ≤ maxCount then some n else none
  | _ => none

/-- A count other than zero. -/
def positive? (v : Value) : Option Nat := v.count?.filter (0 < ·)

/-- The nearest binary64 number of a number. -/
def float? : Value → Option Float
  | .number n => some n.toFloat
  | _ => none

/-- The characters of a text. -/
def text? : Value → Option String
  | .text s => some s
  | _ => none

/-- The truth value. -/
def boolean? : Value → Option Bool
  | .boolean b => some b
  | _ => none

/-- The entries of an object. -/
def entries? : Value → Option Entries
  | .object entries => some entries
  | _ => none

end Value

end Regimen
