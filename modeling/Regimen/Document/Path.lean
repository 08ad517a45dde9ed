import Regimen.Document.Value

/-!
# Paths

A path says where in a document a value stands. It starts at a base, which is empty for a whole
document, and goes down through keys and positions. `Path.text` writes it with points between the
parts; `Value.at?` follows the steps.
-/

namespace Regimen

/-- One step down into a value. -/
inductive Step where
  /-- To the value under a key. -/
  | key (name : String)
  /-- To an element of a list of fixed length; written as a key is. -/
  | element (position : Nat)
  /-- To an item of a list of any length; written after a point also when nothing stands before it. -/
  | item (position : Nat)
  deriving DecidableEq, Repr

/-- A place in a document. -/
structure Path where
  /-- The text that the place of the outermost value is known by. -/
  base : String
  /-- The steps down from there. -/
  steps : List Step
  deriving DecidableEq, Repr

/-- A parent's text and a key, with a point between them unless the parent's text is empty. -/
def joined (parent name : String) : String :=
  if parent = "" then name else parent ++ "." ++ name

/-- The text of a place below the place that `parent` writes. -/
def Step.below (parent : String) : Step → String
  | .key name => joined parent name
  | .element position => joined parent (toString position)
  | .item position => parent ++ "." ++ toString position

namespace Path

/-- The place of a whole document. -/
def root : Path := ⟨"", []⟩

/-- A place that is known by a text. -/
def named (text : String) : Path := ⟨text, []⟩

/-- The place one step below. -/
def step (p : Path) (s : Step) : Path := ⟨p.base, p.steps ++ [s]⟩

/-- The place of the value under a key. -/
def key (p : Path) (name : String) : Path := p.step (.key name)

/-- The place of an element of a list of fixed length. -/
def element (p : Path) (position : Nat) : Path := p.step (.element position)

/-- The place of an item of a list of any length. -/
def item (p : Path) (position : Nat) : Path := p.step (.item position)

/-- The written form. -/
def text (p : Path) : String := p.steps.foldl Step.below p.base

/-- The path itself, or a word for the whole document where the text would be empty. -/
def orDocument (p : Path) : Path := if p.text = "" then named "<document>" else p

@[simp] theorem text_named (t : String) : (named t).text = t := rfl

@[simp] theorem text_key (p : Path) (name : String) : (p.key name).text = joined p.text name := by
  simp [text, key, step, Step.below]

@[simp] theorem text_element (p : Path) (i : Nat) :
    (p.element i).text = joined p.text (toString i) := by
  simp [text, element, step, Step.below]

@[simp] theorem text_item (p : Path) (i : Nat) :
    (p.item i).text = p.text ++ "." ++ toString i := by
  simp [text, item, step, Step.below]

end Path

/-- The value at the end of the steps, if they lead to one. -/
def Value.at? : List Step → Value → Option Value
  | [], v => some v
  | .key name :: steps, .object entries => (entries.lookup name).bind (Value.at? steps)
  | .element i :: steps, .list items => items[i]?.bind (Value.at? steps)
  | .item i :: steps, .list items => items[i]?.bind (Value.at? steps)
  | _, _ => none

end Regimen
