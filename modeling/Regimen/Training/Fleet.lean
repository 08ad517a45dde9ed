import Regimen.Training.Loop

/-!
# Learners side by side

Several learners train one agent. They share the tally and the runtime; each has a memory of its own
and counts what it has done. Their steps come in any order, and the tally may move from outside.
-/

namespace Regimen.Training

/-- Learners that share a tally and a runtime. -/
structure Fleet (σ : Type) where
  /-- The shared tally. -/
  tally : Tally
  /-- The learners. -/
  learners : List Learner
  /-- The state of the shared runtime. -/
  runtime : σ

/-- What can happen to a fleet. -/
inductive Event where
  /-- A learner takes a step. -/
  | step (worker : Nat)
  /-- The tally goes on by so many time steps. -/
  | advance (n : Nat)
  /-- The tally counts an episode. -/
  | endEpisode
  deriving DecidableEq, Repr

/-- What happened: what the runtime was asked for and answered, the outcome of a step, and where the
tally stood afterwards. -/
structure Happening where
  /-- The event. -/
  event : Event
  /-- What the runtime was asked for and answered, first to last. -/
  exchanges : List Exchange
  /-- The outcome of a step. -/
  outcome : Option (Except Failure Report)
  /-- The tally afterwards. -/
  tally : Tally

namespace Fleet

variable {σ α : Type}

/-- A fleet of so many learners that have done nothing yet. -/
def start (tally : Tally) (workers : Nat) (runtime : σ) : Fleet σ :=
  ⟨tally, List.replicate workers .new, runtime⟩

/-- What one learner sees of the fleet. -/
def world? (f : Fleet σ) (worker : Nat) : Option (World σ) :=
  f.learners[worker]?.map fun learner => ⟨f.tally, learner, f.runtime, []⟩

/-- The fleet after one learner has changed what it sees. -/
def restore (f : Fleet σ) (worker : Nat) (w : World σ) : Fleet σ :=
  ⟨w.tally, f.learners.set worker w.learner, w.runtime⟩

/-- One learner acts: the outcome, what the runtime was asked for and answered, and the fleet
afterwards. -/
def act (f : Fleet σ) (worker : Nat) (a : Act σ α) :
    Option (Except Failure α × List Exchange × Fleet σ) :=
  (f.world? worker).map fun w => (a.outcome w, (a.after w).exchanges, f.restore worker (a.after w))

/-- An event; a step of a learner that is not there is none. -/
def happen (p : Plan) (rt : Runtime σ) (f : Fleet σ) (e : Event) : Happening × Fleet σ :=
  match e with
  | .step worker =>
    match f.act worker (step p rt) with
    | some (outcome, exchanges, f) => (⟨e, exchanges, some outcome, f.tally⟩, f)
    | none => (⟨e, [], none, f.tally⟩, f)
  | .advance n =>
    let f := { f with tally := f.tally.advance n p.counting }
    (⟨e, [], none, f.tally⟩, f)
  | .endEpisode =>
    let f := { f with tally := f.tally.endEpisode p.counting }
    (⟨e, [], none, f.tally⟩, f)

/-- A sequence of events. -/
def run (p : Plan) (rt : Runtime σ) (f : Fleet σ) : List Event → List Happening × Fleet σ
  | [] => ([], f)
  | e :: rest =>
    let (h, f) := f.happen p rt e
    let (others, last) := run p rt f rest
    (h :: others, last)

end Fleet

end Regimen.Training
