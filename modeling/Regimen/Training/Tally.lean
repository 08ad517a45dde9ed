import Regimen.Settings.Cadence

/-!
# Tallies

Training counts time steps and episodes. The learners of one training share a tally through handles:
a handle that is taken from another moves the same tally (`Tallies`).

A program counts in 64 bits, and starts again after the greatest count (`Counting.around`). As long as it
does not get there, this is to count without end (`Counting.endless`).
-/

namespace Regimen

/-- How is counted. -/
inductive Counting where
  /-- Without an end. -/
  | endless
  /-- In 64 bits: zero comes after `maxCount`. -/
  | around
  deriving DecidableEq, Repr

/-- The count that is so many further. -/
def Counting.add : Counting → Nat → Nat → Nat
  | endless, count, n => count + n
  | around, count, n => (count + n) % (maxCount + 1)

@[simp] theorem Counting.endless_add (count n : Nat) : endless.add count n = count + n := rfl

/-- Up to the greatest count both ways of counting are the same. -/
theorem Counting.add_of_le (c : Counting) {count n : Nat} (h : count + n ≤ maxCount) :
    c.add count n = count + n := by
  cases c with
  | endless => rfl
  | around => exact Nat.mod_eq_of_lt (Nat.lt_succ_of_le h)

/-- What was counted: time steps and episodes. -/
structure Tally where
  /-- The number of time steps. -/
  timeSteps : Nat
  /-- The number of episodes. -/
  episodes : Nat
  deriving DecidableEq, Repr

namespace Tally

/-- Nothing was counted yet. -/
def zero : Tally := ⟨0, 0⟩

/-- What an interval counts. -/
def count (t : Tally) : Cadence.Measure → Nat
  | .timeSteps => t.timeSteps
  | .episodes => t.episodes

/-- So many time steps more. -/
def advance (t : Tally) (n : Nat) (c : Counting := .endless) : Tally :=
  { t with timeSteps := c.add t.timeSteps n }

/-- One episode more. -/
def endEpisode (t : Tally) (c : Counting := .endless) : Tally :=
  { t with episodes := c.add t.episodes 1 }

/-- Neither count exceeds the greatest one. -/
def Fits (t : Tally) : Prop := t.timeSteps ≤ maxCount ∧ t.episodes ≤ maxCount

instance (t : Tally) : Decidable t.Fits := inferInstanceAs (Decidable (_ ∧ _))

theorem advance_of_fits {t : Tally} {n : Nat} (h : (t.advance n).Fits) (c : Counting) :
    t.advance n c = t.advance n := by
  rw [advance, c.add_of_le h.1]
  rfl

theorem endEpisode_of_fits {t : Tally} (h : t.endEpisode.Fits) (c : Counting) :
    t.endEpisode c = t.endEpisode := by
  rw [endEpisode, c.add_of_le h.2]
  rfl

end Tally

/-- Tallies, and handles on them. -/
structure Tallies where
  /-- The tallies, in the order in which they were started. -/
  cells : List Tally
  /-- For each handle the position of its tally. -/
  handles : List Nat
  deriving DecidableEq, Repr

namespace Tallies

/-- No tally. -/
def empty : Tallies := ⟨[], []⟩

/-- The tally that a handle moves. -/
def read? (t : Tallies) (handle : Nat) : Option Tally := t.handles[handle]?.bind (t.cells[·]?)

/-- What the handles show, in the order in which they were made. -/
def all (t : Tallies) : List Tally := t.handles.filterMap (t.cells[·]?)

/-- A new handle on a new tally. -/
def start (t : Tallies) (tally : Tally) : Tallies :=
  ⟨t.cells ++ [tally], t.handles ++ [t.cells.length]⟩

/-- A new handle on the tally of another. -/
def share (t : Tallies) (handle : Nat) : Tallies :=
  ⟨t.cells, t.handles ++ t.handles[handle]?.toList⟩

/-- The tally of a handle moves. -/
def move (t : Tallies) (handle : Nat) (f : Tally → Tally) : Tallies :=
  match t.handles[handle]? with
  | some cell => ⟨t.cells.modify cell f, t.handles⟩
  | none => t

/-- What can be done with tallies. -/
inductive Event where
  /-- A new tally is started. -/
  | start (tally : Tally)
  /-- A handle is taken from another. -/
  | share (handle : Nat)
  /-- The tally of a handle goes on by so many time steps. -/
  | advance (handle : Nat) (n : Nat)
  /-- The tally of a handle counts an episode. -/
  | endEpisode (handle : Nat)
  deriving DecidableEq, Repr

/-- What becomes of the tallies, and the total that whoever moved one is told. -/
def step (t : Tallies) (e : Event) (c : Counting := .endless) : Option Nat × Tallies :=
  match e with
  | .start tally => (none, t.start tally)
  | .share handle => (none, t.share handle)
  | .advance handle n =>
    let moved := t.move handle (·.advance n c)
    ((moved.read? handle).map Tally.timeSteps, moved)
  | .endEpisode handle =>
    let moved := t.move handle (·.endEpisode c)
    ((moved.read? handle).map Tally.episodes, moved)

/-- A sequence of events, with the totals that were told. -/
def run (t : Tallies) (es : List Event) (c : Counting := .endless) : List (Option Nat) × Tallies :=
  match es with
  | [] => ([], t)
  | e :: rest =>
    let (told, t) := t.step e c
    let (others, last) := run t rest c
    (told :: others, last)

end Tallies

end Regimen
