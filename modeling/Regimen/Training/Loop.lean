import Regimen.Agent.Basic
import Regimen.Training.Tally

/-!
# The training loop

A learner takes steps. In each step it observes, which moves the shared tally; it updates the agent
when the cadence says so; and it brings the target network up to date when that is due. Observing,
updating and synchronising are done by a `Runtime`, which has a state of its own and may fail: the
step ends there, and what was done before stays done.

`step` is one step and `run` a number of them, up to the first failure. Both keep a record of what
the runtime was asked for and what it answered, failures included (`World.exchanges`).

A tally may be resumed from any count, and counts as the plan says. What a learner has done starts from
nothing and goes up by one at a time, and is not bounded.
-/

namespace Regimen.Training

/-- What a step observes. -/
structure Observation where
  /-- The number of records that go to memory. -/
  records : Nat
  /-- The step ends an episode. -/
  episodeDone : Bool
  deriving DecidableEq, Repr

/-- Why a runtime fails. -/
inductive Failure where
  /-- A device fails. -/
  | device (message : String)
  /-- The runtime itself fails. -/
  | runtime (message : String)
  /-- Anything else fails. -/
  | other (message : String)
  deriving DecidableEq, Repr

/-- The text of a failure. -/
def Failure.message : Failure → String
  | device message => "Device error: " ++ message
  | runtime message => "Runtime error: " ++ message
  | other message => message

/-- An update that a runtime is asked for. -/
structure Request where
  /-- The time step. -/
  timeStep : Nat
  /-- The number of records that the update learns from. -/
  batch : Nat
  /-- The number of rounds. -/
  rounds : Nat
  /-- The number of records that a round learns from. -/
  minibatch : Nat
  /-- The learning rate. -/
  learningRate : Float
  deriving DecidableEq

/-- What a runtime was asked for, and its answer. -/
inductive Exchange where
  /-- It was to observe the environment in a time step. -/
  | observe (timeStep : Nat) (answer : Except Failure Observation)
  /-- It was to update the agent. -/
  | update (request : Request) (answer : Except Failure Float)
  /-- It was to bring the target network up to date, after so many steps or updates. -/
  | sync (count : Nat) (answer : Except Failure Unit)

/-- What observes, updates and synchronises, with a state of type `σ`. -/
structure Runtime (σ : Type) where
  /-- Observe the environment in a time step. -/
  observe : Nat → σ → Except Failure Observation × σ
  /-- Update the agent and give the loss. -/
  update : Request → σ → Except Failure Float × σ
  /-- Bring the target network up to date. -/
  sync : Nat → σ → Except Failure Unit × σ

/-- What a learner has done. -/
structure Stats where
  /-- The number of steps that observed. -/
  steps : Nat
  /-- The number of updates. -/
  updates : Nat
  /-- How often the target network was brought up to date. -/
  syncs : Nat
  /-- The loss of the last update. -/
  lastLoss : Option Float
  deriving DecidableEq

/-- What a learner remembers. -/
structure Learner where
  /-- The number of records that were observed, at most `maxCount`. -/
  observed : Nat
  /-- What was done. -/
  stats : Stats
  deriving DecidableEq

/-- A learner that has done nothing yet. -/
def Learner.new : Learner := ⟨0, ⟨0, 0, 0, none⟩⟩

/-- What a step tells. -/
structure Report where
  /-- The time step that was taken. -/
  timeStep : Nat
  /-- The number of records in memory. -/
  buffered : Nat
  /-- Where the agent stands. -/
  phase : Cadence.Phase
  /-- The loss, if there was an update. -/
  loss : Option Float
  /-- The target network was brought up to date. -/
  synced : Bool
  deriving DecidableEq

/-- What training goes by: an agent, the number of steps that its schedules go over, and how its tally
counts. -/
structure Plan where
  /-- The agent. -/
  agent : Agent
  /-- The number of steps of the whole training. -/
  horizon : Nat
  /-- How the tally counts. -/
  counting : Counting

/-- What a step of training changes. -/
structure World (σ : Type) where
  /-- The tally, which other learners may share. -/
  tally : Tally
  /-- The learner. -/
  learner : Learner
  /-- The state of the runtime. -/
  runtime : σ
  /-- What the runtime was asked for and answered, last to first. -/
  trace : List Exchange

/-- A part of training, which may fail; what it has changed stays changed. -/
abbrev Act (σ α : Type) := Attempt Failure (World σ) α

/-- The time step that comes after those that were counted. -/
def Plan.nextStep (p : Plan) (t : Tally) : Nat := p.counting.add t.timeSteps 1

/-- The number of records that a learner's memory holds. -/
def Plan.buffered (p : Plan) (l : Learner) : Nat := p.agent.memory.held l.observed

namespace Act

variable {σ α : Type}

/-- The runtime is asked, and the exchange is recorded. -/
def exchange (record : Except Failure α → Exchange) (ask : σ → Except Failure α × σ) : Act σ α := do
  let w ← get
  let (answer, runtime) := ask w.runtime
  set { w with runtime, trace := record answer :: w.trace }
  Attempt.ofExcept answer

end Act

/-! ### The parts of a step -/

variable {σ : Type}

/-- What the runtime was asked for and answered, first to last. -/
def World.exchanges (w : World σ) : List Exchange := w.trace.reverse

/-- The step is taken: the tally moves, the records are stored, and the learner counts the step. -/
def World.take (w : World σ) (o : Observation) (c : Counting) : World σ :=
  let tally := w.tally.advance 1 c
  { w with
    tally := if o.episodeDone then tally.endEpisode c else tally
    learner := ⟨min (w.learner.observed + o.records) maxCount,
      { w.learner.stats with steps := w.learner.stats.steps + 1 }⟩ }

/-- An update succeeded. -/
def World.updated (w : World σ) (loss : Float) : World σ :=
  let stats := w.learner.stats
  { w with learner := { w.learner with
      stats := { stats with updates := stats.updates + 1, lastLoss := some loss } } }

/-- The target network was brought up to date. -/
def World.synced (w : World σ) : World σ :=
  let stats := w.learner.stats
  { w with learner := { w.learner with stats := { stats with syncs := stats.syncs + 1 } } }

/-- What the intervals count in a step that is taken. Episodes are counted where they end. -/
def decisionCount (measure : Cadence.Measure) (tally : Tally) (o : Observation) : Option Nat :=
  if measure = .timeSteps ∨ o.episodeDone then some (tally.count measure) else none

/-- Where the agent stands; within an episode it makes no decision. -/
def phaseAt (c : Cadence) (count : Option Nat) (buffered : Nat) : Cadence.Phase :=
  match count with
  | some n => c.phase n buffered
  | none => if buffered < c.threshold then .collecting else .ready

/-- The update of a time step. -/
def Plan.request (p : Plan) (timeStep : Nat) : Request where
  timeStep := timeStep
  batch := p.agent.cadence.batch
  rounds := p.agent.cadence.roundsPerUpdate
  minibatch := p.agent.cadence.minibatch
  learningRate := p.agent.learningRateAt timeStep p.horizon

/-- The count that decides about the target network, and the one that the runtime is told: steps are
both; of updates, those before this one decide, and those with it are told. -/
def syncCounts (basis : Option Cadence.Basis) (count : Option Nat) (loss : Option Float)
    (updates : Nat) : Option (Nat × Nat) :=
  match basis with
  | some .steps => count.map fun n => (n, n)
  | some .updates => loss.map fun _ => (updates, updates + 1)
  | none => none

/-- Observe the next time step and take it. -/
def observe (p : Plan) (rt : Runtime σ) : Act σ Observation := do
  let timeStep := p.nextStep (← get).tally
  let o ← Act.exchange (.observe timeStep) (rt.observe timeStep)
  modify (·.take o p.counting)
  return o

/-- Update the agent in the phase for it. -/
def update (p : Plan) (rt : Runtime σ) (phase : Cadence.Phase) : Act σ (Option Float) := do
  if phase = .updating then
    let request := p.request (← get).tally.timeSteps
    let loss ← Act.exchange (.update request) (rt.update request)
    modify (·.updated loss)
    return some loss
  else
    return none

/-- Bring the target network up to date if that is due. -/
def sync (p : Plan) (rt : Runtime σ) (counts : Option (Nat × Nat)) : Act σ Bool := do
  match counts with
  | none => return false
  | some (decided, told) =>
    if p.agent.cadence.SyncDue decided then
      Act.exchange (.sync told) (rt.sync told)
      modify World.synced
      return true
    else
      return false

/-- One step. -/
def step (p : Plan) (rt : Runtime σ) : Act σ Report := do
  let o ← observe p rt
  let w ← get
  let cadence := p.agent.cadence
  let buffered := p.buffered w.learner
  let count := decisionCount cadence.measure w.tally o
  let phase := phaseAt cadence count buffered
  let loss ← update p rt phase
  let synced ← sync p rt (syncCounts cadence.basis count loss w.learner.stats.updates)
  return { timeStep := w.tally.timeSteps, buffered, phase, loss, synced }

/-- A number of steps, up to the first failure, and what the learner has done by then. -/
def run (p : Plan) (rt : Runtime σ) : Nat → Act σ Stats
  | 0 => do return (← get).learner.stats
  | n + 1 => do
    let _ ← step p rt
    run p rt n

end Regimen.Training
